import LetLang.Execution.Run
import LetLang.Source

namespace LetLang

/-- What is kept between runs: the variables, and a log of what was reported. -/
structure Workspace where
  environment : Environment
  log : Log
deriving DecidableEq

/-- What came of a run: its result, and the log with its reports. -/
structure Step where
  result : RunResult
  log : Log
deriving DecidableEq

def Step.workspace (s : Step) : Workspace := ⟨s.result.environment, s.log⟩

namespace Workspace

def empty : Workspace := ⟨.empty, .empty⟩

def runProgram (settings : Settings) (w : Workspace) (program : List Node) : Step :=
  let result := interpret settings w.environment program
  ⟨result, w.log.addRuntimeErrors result.reports⟩

/-- Runs the statements of a text that could be parsed, whatever the others are like. -/
def runText (settings : Settings) (w : Workspace) (text : String) : Step :=
  let source := Source.ofText text
  runProgram settings { w with log := w.log.addErrors source.reports } source.program

/-- What a caller can ask for wrongly. -/
inductive Misuse where
  | undefinedVariable (name : Json)
  /-- An array or an object in the place of a name. -/
  | notAName (name : Json)
  /-- A run reports to the workspace's own log and to no other. -/
  | foreignLog
deriving DecidableEq

def Misuse.message : Misuse → String
  | .undefinedVariable name => FaultCause.message (.undefinedVariable name.display)
  | .notAName name => name.notANameMessage
  | .foreignLog => "run_source: pass the reporter to the Interpreter instead"

/-- The log that a caller names for the reports of a run. -/
inductive Sink where
  | own
  | other
deriving DecidableEq

def runTextTo (settings : Settings) (w : Workspace) (sink : Sink) (text : String) :
    Except Misuse Step :=
  match sink with
  | .own => .ok (w.runText settings text)
  | .other => .error .foreignLog

/-- The variables, for a request that names one. -/
def named (w : Workspace) (name : Json) : Except Misuse Environment :=
  if name.isScalar then .ok w.environment else .error (.notAName name)

def define (w : Workspace) (name : Json) (value : Value) : Except Misuse Workspace := do
  let environment ← w.named name
  return { w with environment := environment.define name value }

def assign (w : Workspace) (name : Json) (value : Value) : Except Misuse Workspace := do
  match (← w.named name).assign? name value with
  | some environment => return { w with environment := environment }
  | none => throw (.undefinedVariable name)

def get (w : Workspace) (name : Json) : Except Misuse Value := do
  match (← w.named name).get? name with
  | some value => return value
  | none => throw (.undefinedVariable name)

def contains (w : Workspace) (name : Json) : Except Misuse Bool := do
  return (← w.named name).contains name

def resetLog (w : Workspace) : Workspace := { w with log := .empty }

end Workspace

/-- A text run on its own, with the given variables. -/
def runSource (settings : Settings) (environment : Environment) (text : String) : Step :=
  Workspace.runText settings ⟨environment, .empty⟩ text

end LetLang
