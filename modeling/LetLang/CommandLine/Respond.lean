import LetLang.CommandLine.Options
import LetLang.Document.Loader
import LetLang.Json.Printer
import LetLang.Json.Reader
import LetLang.Strict.Build

namespace LetLang.CommandLine

/-- What ends the program without a report of its own. -/
inductive Failure where
  | directory (path : String)
  | longPath (path : String)
  | document (e : Json.ReadError)
  | tree (e : Document.LoadError)
  | breakdown (b : Breakdown)
  | tooLong
deriving DecidableEq

def Failure.message : Failure → String
  | .directory path => "[Errno 21] Is a directory: " ++ Text.quoted path
  | .longPath path => "[Errno 36] File name too long: " ++ Text.quoted path
  | .document e => e.message
  | .tree e => e.message
  | .breakdown b => b.message
  | .tooLong => "a loop made too many passes"

inductive Exit where
  | status (code : Nat)
  | failed (f : Failure)
deriving DecidableEq

/-- The exit status, what is written to both streams, and the files that are written. -/
structure Response where
  exit : Exit
  stdout : String
  stderr : String
  written : List (String × String)
deriving DecidableEq

/-- Any of the three line ends becomes a line feed. -/
def unifyLineEnds : List Char → List Char
  | [] => []
  | '\r' :: '\n' :: rest => '\n' :: unifyLineEnds rest
  | '\r' :: rest => '\n' :: unifyLineEnds rest
  | c :: rest => c :: unifyLineEnds rest

def pathParts : List Char → List (List Char)
  | [] => [[]]
  | c :: rest =>
    if c = '/' then [] :: pathParts rest
    else
      match pathParts rest with
      | part :: parts => (c :: part) :: parts
      | [] => [[c]]

/-- Slashes at the start: exactly two are kept apart from one. -/
def pathRoot (cs : List Char) : String :=
  match (cs.takeWhile (· == '/')).length with
  | 0 => ""
  | 2 => "//"
  | _ => "/"

/-- The steps of a path, without empty ones and those that stay where they are. -/
def pathSteps (cs : List Char) : List String :=
  ((pathParts cs).filter fun part => !(part.isEmpty || part == ['.'])).map String.ofList

/-- A path with its steps only. -/
def normalPath (path : String) : String :=
  let cs := path.toList
  let text := pathRoot cs ++ "/".intercalate (pathSteps cs)
  if text = "" then "." else text

/-- The steps of a path from where it leaves the directories above the current one. -/
def stepsDown (path : String) : List String := (pathSteps path.toList).dropWhile (· == "..")

/-- The files that there are, each under its path. -/
structure Files where
  text : String → Option String
  /-- Is there a directory at the path? -/
  isDirectory : String → Bool

namespace Files

/-- Files without a directory among them. -/
def ofTexts (text : String → Option String) : Files := ⟨text, fun _ => false⟩

/-- Is a step longer than 255 bytes? A step is looked at if those before it lead to a directory. -/
def meetsLongStep (files : Files) (before : String) : List String → Bool
  | [] => false
  | step :: steps =>
    255 < step.utf8ByteSize ||
      ((step == ".." || files.isDirectory (before ++ step)) &&
        files.meetsLongStep (before ++ step ++ "/") steps)

/-- Is the path, or a step on the way, longer than the system allows? -/
def isTooLong (files : Files) (path : String) : Bool :=
  4096 ≤ path.utf8ByteSize ||
    files.meetsLongStep (pathRoot path.toList) (pathSteps path.toList)

/-- Why the system does not open the path as a file, whether there is one or not. -/
def refusal? (files : Files) (path : String) : Option Failure :=
  if files.isTooLong path then some (.longPath path)
  else if (stepsDown path).isEmpty || files.isDirectory path then some (.directory path)
  else none

end Files

def debugFile : String := "debug.txt"

/-- The trace file is written whenever a trace is asked for, even if nothing is traced. -/
def traceFiles (verbosity : Nat) (trace : List String) : List (String × String) :=
  if verbosity = 0 then [] else [(debugFile, Console.text trace)]

def emittedPath (path : String) : String := path ++ ".ast.json"

/-- The status of a run: 1 when anything was reported. -/
def exitOf (stop : Option Stop) (hadError : Bool) : Exit :=
  match stop with
  | some (.breakdown b) => .failed (.breakdown b)
  | some .tooLong => .failed .tooLong
  | some _ => .status 1
  | none => .status (if hadError then 1 else 0)

/-- The response of a step: reports go to the error stream. -/
def ofStep (verbosity : Nat) (step : Step) : Response :=
  { exit := exitOf step.result.stop step.log.hadError
    stdout := Console.text step.result.output
    stderr := Console.text (Console.logLines step.log)
    written := traceFiles verbosity step.result.trace }

def refused (lines : List String) : Response := ⟨.status 1, "", Console.text lines, []⟩

def notFound (path : String) : Response := refused ["Error: file " ++ path ++ " not found"]

def failedWith (f : Failure) : Response := ⟨.failed f, "", "", []⟩

def listTokens (source : String) : Response :=
  let scan := tokenize source
  { exit := .status (if scan.reports.isEmpty then 0 else 1)
    stdout := Console.text (scan.tokens.map (·.listing))
    stderr := Console.text (scan.reports.map Console.reportLine)
    written := [] }

def emitAst (files : Files) (path source : String) : Response :=
  let source := Source.ofText source
  if !source.reports.isEmpty then refused (source.reports.map Console.reportLine)
  else
    match files.refusal? (emittedPath path) with
    | some f => failedWith f
    | none =>
      { exit := .status 0
        stdout := Console.text [emittedPath path]
        stderr := ""
        written := [(emittedPath path, (Document.ofProgram source.program).indented)] }

def runTree (settings : Settings) (program : List Node) : Response :=
  ofStep settings.verbosity (Workspace.empty.runProgram settings program)

def runAst (settings : Settings) (text : String) : Response :=
  match Json.read text.toList with
  | .error e => failedWith (.document e)
  | .ok document =>
    match Document.program document with
    | .error e => failedWith (.tree e)
    | .ok program => runTree settings program

def runStrict (settings : Settings) (source : String) : Response :=
  match Strict.parse source with
  | .error report => refused [Console.reportLine report]
  | .ok program => runTree settings program

def runProgram (options : Session.Options) (source : String) : Response :=
  ofStep options.settings.verbosity (Session.run options .empty source)

/-- The status of a dialogue is 0 whatever was reported, since that is part of the dialogue. -/
def runPrompt (options : Session.Options) (input : String) : Response :=
  let steps := Console.runLines options .empty (Console.inputLines input)
  { exit :=
      match (steps.getLast?.bind (·.result.stop)) with
      | some (.breakdown b) => .failed (.breakdown b)
      | some .tooLong => .failed .tooLong
      | _ => .status 0
    stdout := Console.dialogue steps
    stderr := ""
    written := traceFiles options.settings.verbosity (steps.flatMap (·.result.trace)) }

def usage : String :=
  "usage: [-v] [--tokens FILE | --emit-ast FILE | --ast FILE] [--strict] [--keep-going] " ++
    "[program]"

/-- How deep and how long a statement may run. -/
structure Limits where
  depth : Nat
  passes : Nat

/-- The levels of evaluation that a statement of a program has. -/
def levels : Nat := 1000

/-- More passes than any loop can make in a lifetime, 2^62. -/
def maxPasses : Nat := 4611686018427387904

def defaultLimits : Limits := ⟨levels, maxPasses⟩

def withSource (files : Files) (path : String) (respond : String → String → Response) :
    Response :=
  let path := normalPath path
  match files.refusal? path with
  | some f => failedWith f
  | none =>
    match files.text path with
    | none => notFound path
    | some text => respond path (String.ofList (unifyLineEnds text.toList))

def respondTo (limits : Limits) (files : Files) (input : String) (c : Collected) : Response :=
  let settings : Settings := ⟨limits.depth, limits.passes, c.verbosity⟩
  let options : Session.Options := ⟨settings, c.keepGoing⟩
  match c.mode with
  | .listTokens path => withSource files path fun _ => listTokens
  | .emitAst path => withSource files path (emitAst files)
  | .runAst path => withSource files path fun _ => runAst settings
  | .runProgram path =>
    withSource files path fun _ =>
      if c.strict then runStrict settings else runProgram options
  | .prompt => runPrompt options input

/-- The answer to a list of arguments. A wrong use has status 2 and shows the usage. -/
def respond (limits : Limits) (files : Files) (input : String) (args : List String) : Response :=
  match readArguments args with
  | none => ⟨.status 2, "", Console.text [usage], []⟩
  | some c =>
    if c.help then ⟨.status 0, Console.text [usage], "", []⟩
    else respondTo limits files input c

end LetLang.CommandLine
