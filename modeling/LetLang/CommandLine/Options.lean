import LetLang.Console
import LetLang.Number.Text

namespace LetLang.CommandLine

inductive Flag where
  | help
  | verbose
  | tokens
  | emitAst
  | ast
  | strict
  | keepGoing
deriving DecidableEq

/-- The spellings, in the order in which they are declared. -/
def longOptions : List (String × Flag) := [
  ("--help", .help), ("--tokens", .tokens), ("--emit-ast", .emitAst), ("--ast", .ast),
  ("--strict", .strict), ("--keep-going", .keepGoing)]

def shortOptions : List (Char × Flag) := [('h', .help), ('v', .verbose)]

/-- Does the option name a file? -/
def Flag.takesFile : Flag → Bool
  | .tokens | .emitAst | .ast => true
  | _ => false

inductive Item where
  | positional (text : String)
  /-- An option with what stands behind its equals sign. -/
  | option (flag : Flag) (value : Option String)
  /-- What looks like an option but spells none. -/
  | unknown
  /-- An option with something behind it that it cannot have. -/
  | bad
deriving DecidableEq

/-- The text before and after the first equals sign. -/
def splitEquals (cs : List Char) : List Char × Option (List Char) :=
  match cs.dropWhile (· != '=') with
  | _ :: value => (cs.takeWhile (· != '='), some value)
  | [] => (cs, none)

/-- The long options that a text may stand for: the one it spells, or all that it begins. -/
def matching (name : List Char) : List Flag :=
  match longOptions.find? fun (spelling, _) => spelling.toList == name with
  | some (_, flag) => [flag]
  | none => (longOptions.filter fun (spelling, _) => name.isPrefixOf spelling.toList).map (·.2)

def isDigit (c : Char) : Bool := (Number.decimalDigit? c).isSome

/-- A line feed at the end does not count. -/
def dropLineFeed (cs : List Char) : List Char :=
  if cs.getLast? = some '\n' then cs.dropLast else cs

/-- A minus with digits, or with digits around a point, is no option. -/
def looksNegative (cs : List Char) : Bool :=
  match dropLineFeed cs with
  | '-' :: rest =>
    let whole := rest.takeWhile isDigit
    match rest.dropWhile isDigit with
    | [] => !whole.isEmpty
    | '.' :: fraction => !fraction.isEmpty && fraction.all isDigit
    | _ => false
  | _ => false

/-- An argument that starts with a dash but spells no option. -/
def notAnOption (cs : List Char) : Item :=
  if looksNegative cs || cs.contains ' ' then .positional (String.ofList cs) else .unknown

/-- The file behind an equals sign. Two dashes name none. -/
def fileName (cs : List Char) : String := if cs = ['-', '-'] then "" else String.ofList cs

/-- A long option, unless more than one may be meant. -/
def longItem (cs : List Char) : Option Item :=
  let (name, value) := splitEquals cs
  match matching name with
  | [flag] =>
    match value with
    | some value => some (if flag.takesFile then .option flag (some (fileName value)) else .bad)
    | none => some (.option flag none)
  | [] => some (notAnOption cs)
  | _ => none

/-- Short options after one dash, each of them a letter. -/
def shortItems : List Char → Option (List Item)
  | [] => some []
  | c :: rest => do
    let flag ← shortOptions.lookup c
    let items ← shortItems rest
    return .option flag none :: items

/-- An equals sign may stand between the first letter and others. -/
def shortGroup (c : Char) : List Char → Option (List Item)
  | ['='] => none
  | '=' :: rest | rest => shortItems (c :: rest)

/-- What an argument stands for. With an ambiguous one nothing is read at all. -/
def items (arg : String) : Option (List Item) :=
  match arg.toList with
  | '-' :: '-' :: rest => (longItem ('-' :: '-' :: rest)).map ([·])
  | '-' :: c :: rest =>
    if (shortOptions.lookup c).isSome then some ((shortGroup c rest).getD [.bad])
    else some [notAnOption ('-' :: c :: rest)]
  | _ => some [.positional arg]

structure Collected where
  help : Bool
  verbosity : Nat
  strict : Bool
  keepGoing : Bool
  /-- The option that names a file, and the name. -/
  file : Option (Flag × String)
  program : Option String
  /-- Was the program the last argument? -/
  programIsLast : Bool
  /-- Was there an argument that nothing asks for? -/
  leftOver : Bool
deriving DecidableEq

def Collected.none : Collected := ⟨false, 0, false, false, .none, .none, false, false⟩

/-- Only one of the options that name a file may be used; the last of its uses counts. -/
def Collected.setFile (c : Collected) (flag : Flag) (name : String) : Option Collected :=
  match c.file with
  | some (other, _) => if other = flag then some { c with file := some (flag, name) } else .none
  | .none => some { c with file := some (flag, name) }

def Collected.setFlag (c : Collected) : Flag → Collected
  | .help => { c with help := true }
  | .verbose => { c with verbosity := c.verbosity + 1 }
  | .strict => { c with strict := true }
  | .keepGoing => { c with keepGoing := true }
  | _ => c

/-- The first argument that belongs to no option is the program. -/
def Collected.setProgram (c : Collected) (text : String) : Collected :=
  match c.program with
  | some _ => { c with leftOver := true }
  | .none => { c with program := some text, programIsLast := true }

/-- Takes the items in order; nothing is the result of a wrong use. Help is given as soon as it is
asked for, whatever comes behind; arguments that are left over are minded at the end only. -/
def collect (c : Collected) : List Item → Option Collected
  | [] => some c
  | .positional text :: rest => collect (c.setProgram text) rest
  | .unknown :: rest => collect { c with programIsLast := false, leftOver := true } rest
  | .option flag value :: rest =>
    let c := { c with programIsLast := false }
    if flag.takesFile then
      match value, rest with
      | some name, rest => do collect (← c.setFile flag name) rest
      -- Without an equals sign the next argument is the name, unless that is an option.
      | .none, .positional name :: rest => do collect (← c.setFile flag name) rest
      | .none, _ => .none
    else if flag = .help then some (c.setFlag flag)
    else collect (c.setFlag flag) rest
  | .bad :: _ => .none

/-- The arguments before and after two dashes that stand alone. -/
def splitDashes (args : List String) : List String × Option (List String) :=
  match args.dropWhile (· != "--") with
  | _ :: rest => (args.takeWhile (· != "--"), some rest)
  | [] => (args, none)

/-- After the two dashes there is at most the program. They may also follow it directly, with
nothing more after them. -/
def finish (c : Collected) : List String → Collected
  | [] => { c with leftOver := c.leftOver || !(c.program.isNone || c.programIsLast) }
  | [program] => c.setProgram program
  | _ => { c with leftOver := true }

/-- Options and the program may come in any order, and two dashes alone end the options. -/
def readArguments (args : List String) : Option Collected := do
  let (before, after) := splitDashes args
  let items ← before.mapM items
  let c ← collect .none items.flatten
  if c.help then return c
  let c := (after.map (finish c)).getD c
  if c.leftOver then none else return c

inductive Mode where
  | listTokens (path : String)
  | emitAst (path : String)
  | runAst (path : String)
  | runProgram (path : String)
  | prompt
deriving DecidableEq

/-- An empty name counts as none. -/
def Collected.mode (c : Collected) : Mode :=
  match c.file, c.program.getD "" with
  | some (flag, name), program =>
    if name = "" then (if program = "" then .prompt else .runProgram program)
    else
      match flag with
      | .tokens => .listTokens name
      | .emitAst => .emitAst name
      | _ => .runAst name
  | .none, program => if program = "" then .prompt else .runProgram program

end LetLang.CommandLine
