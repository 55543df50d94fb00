import LetLang.Session

namespace LetLang.Console

def reportLine (r : Report) : String :=
  if r.place = "" then "line " ++ toString r.line ++ ": error: " ++ r.message
  else "line " ++ toString r.line ++ ": error " ++ r.place ++ ": " ++ r.message

def runtimeLine (r : RuntimeReport) : String :=
  if r.line = 0 then r.message else "line " ++ toString r.line ++ ": " ++ r.message

def logLines (log : Log) : List String :=
  log.errors.map reportLine ++ log.runtimeErrors.map runtimeLine

/-- Each line with its line feed. -/
def text (lines : List String) : String := String.join (lines.map (· ++ "\n"))

/-- All that a step shows, in the order in which it happens. -/
def stepLines (step : Step) : List String :=
  step.log.errors.map reportLine ++ step.result.output ++
    step.log.runtimeErrors.map runtimeLine

def prompt : String := "[repl] "

/-- Each line that is typed is run with a line feed at its end. -/
def runLines (options : Session.Options) (w : Workspace) (lines : List String) : List Step :=
  Session.runAll options w (lines.map (· ++ "\n"))

/-- The lines of an input. The last one need not end with a line feed. -/
def linesOf : List Char → List (List Char)
  | [] => []
  | '\n' :: rest => [] :: linesOf rest
  | c :: rest =>
    match linesOf rest with
    | [] => [[c]]
    | line :: lines => (c :: line) :: lines

def inputLines (input : String) : List String := (linesOf input.toList).map String.ofList

/-- The prompt before each line, what the line shows, and the prompt that meets the end. -/
def dialogue (steps : List Step) : String :=
  String.join (steps.map fun step => prompt ++ text (stepLines step)) ++ prompt

end LetLang.Console
