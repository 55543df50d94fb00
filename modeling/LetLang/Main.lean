import LetLang.CommandLine.Respond

namespace LetLang.CommandLine

/-- The files, as far as the path leads: to a text, to a directory or to nothing. -/
def look (path : String) : IO Files := do
  try
    let text ← IO.FS.readFile path
    return .ofTexts fun p => if p = path then some text else none
  catch
    | .inappropriateType .. => return ⟨fun _ => none, (· == path)⟩
    | _ => return .ofTexts fun _ => none

/-- The file that a mode reads. -/
def inputPath? : Mode → Option String
  | .listTokens path | .emitAst path | .runAst path | .runProgram path => some (normalPath path)
  | .prompt => none

/-- The dialogue, line by line. -/
def converse (options : Session.Options) : IO Unit := do
  let input ← IO.getStdin
  let output ← IO.getStdout
  let mut workspace := Workspace.empty
  let mut trace : List String := []
  let mut waiting := true
  while waiting do
    output.putStr Console.prompt
    output.flush
    let line ← input.getLine
    if line.isEmpty then waiting := false
    else
      for step in Console.runLines options workspace (Console.inputLines line) do
        output.putStr (Console.text (Console.stepLines step))
        workspace := step.workspace
        trace := trace ++ step.result.trace
  for (name, text) in traceFiles options.settings.verbosity trace do
    IO.FS.writeFile name text

/-- Writes a response to the streams and the files. -/
def deliver (response : Response) : IO UInt32 := do
  (← IO.getStdout).putStr response.stdout
  (← IO.getStderr).putStr response.stderr
  for (name, text) in response.written do
    IO.FS.writeFile name text
  match response.exit with
  | .status code => return code.toUInt32
  | .failed f =>
    (← IO.getStderr).putStr (f.message ++ "\n")
    return 1

/-- Reads the file that the arguments name, if they name one, and answers them. -/
def perform (args : List String) : IO UInt32 := do
  let answer := fun files => deliver (respond defaultLimits files "" args)
  match readArguments args with
  | none => answer (.ofTexts fun _ => none)
  | some c =>
    match inputPath? c.mode, c.help with
    | some path, false => answer (← look path)
    | none, false =>
      converse ⟨⟨defaultLimits.depth, defaultLimits.passes, c.verbosity⟩, c.keepGoing⟩
      return 0
    | _, true => answer (.ofTexts fun _ => none)

end LetLang.CommandLine

def main (args : List String) : IO UInt32 := LetLang.CommandLine.perform args
