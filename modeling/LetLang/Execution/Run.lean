import LetLang.Execution.Environment
import LetLang.Execution.Operator

namespace LetLang

/-- What a run is allowed, and how much it tells. -/
structure Settings where
  /-- Levels of evaluation for one statement of the program. -/
  depth : Nat
  /-- Passes of one `while` loop. -/
  passes : Nat
  /-- 0 for no trace, up to 4. -/
  verbosity : Nat
deriving DecidableEq

structure State where
  environment : Environment
  output : Array String
  trace : Array String

/-- What a run has done before it stops is kept. -/
abbrev Run := EStateM Stop State

namespace Run

def ofExcept {α : Type} : Except Stop α → Run α
  | .ok a => pure a
  | .error stop => throw stop

def print (text : String) : Run Unit :=
  modify fun s => { s with output := s.output.push text }

def writeTrace (text : String) : Run Unit :=
  modify fun s => { s with trace := s.trace.push text }

/-- Adds a line to the trace from the given level of verbosity on. -/
@[inline] def traceFrom (level : Nat) (settings : Settings) (text : Unit → String) : Run Unit :=
  if level ≤ settings.verbosity then writeTrace (text ()) else pure ()

def undefined {α : Type} (name : Token) : Run α :=
  throw (.fault ⟨some name, .undefinedVariable name.text⟩)

/-- The name of a variable. Only a value without parts can be one. -/
def nameOf (name : Token) : Run Json :=
  if name.lexeme.isScalar then pure name.lexeme else throw (.breakdown (.notAName name.lexeme))

def readVar (name : Token) : Run Value := do
  let key ← nameOf name
  match (← get).environment.get? key with
  | some value => pure value
  | none => undefined name

def assignVar (name : Token) (value : Value) : Run Unit := do
  let key ← nameOf name
  match (← get).environment.assign? key value with
  | some environment => modify fun s => { s with environment := environment }
  | none => undefined name

def defineVar (name : Token) (value : Value) : Run Unit := do
  let key ← nameOf name
  modify fun s => { s with environment := s.environment.define key value }

def traceAssign (settings : Settings) (name : Token) (value : Value) : Run Unit :=
  traceFrom 2 settings fun _ => "assign " ++ name.text ++ " = " ++ value.display

/-- The value of an expression, within so many levels of evaluation. -/
def eval (settings : Settings) : Nat → Node → Run Value
  | 0, _ => throw .tooDeep
  | depth + 1, node =>
    match node with
    | .literal value => pure value
    | .grouping e => eval settings depth e
    | .var name => readVar name
    | .assign name e => do
      let value ← eval settings depth e
      assignVar name value
      traceAssign settings name value
      pure value
    | .logical left operator right => do
      let value ← eval settings depth left
      -- A true operand decides an or, a false one an and, with its own value.
      if value.isTruthy = (operator.kind == .kwOr) then pure value
      else eval settings depth right
    | .unary operator e => do
      let value ← eval settings depth e
      ofExcept (Operator.applyUnary operator value)
    | .binary left operator right => do
      let a ← eval settings depth left
      let b ← eval settings depth right
      ofExcept (Operator.applyBinary operator a b)
    | other => throw (.breakdown (.unknownExpression other.kindName))

def truthText (b : Bool) : String := if b then "True" else "False"

def kindOf (value : Value) : Run Value.Kind :=
  match value.kind? with
  | some kind => pure kind
  | none => throw (.breakdown (.notAValue value))

/-- The trace of a declaration names the kind of the value, so that must have one. -/
def traceDeclare (settings : Settings) (name : Token) (value : Value) : Run Unit :=
  if 2 ≤ settings.verbosity then do
    let kind ← kindOf value
    writeTrace ("declare " ++ name.text ++ ": " ++ kind.name ++ " = " ++ value.display)
  else pure ()

def traceIf (settings : Settings) (value : Value) : Run Unit :=
  traceFrom 3 settings fun _ =>
    "if condition " ++ value.display ++ " -> " ++ truthText value.isTruthy

def traceWhile (settings : Settings) (value : Value) : Run Unit :=
  traceFrom 3 settings fun _ => "while condition " ++ value.display

def traceFor (settings : Settings) (start finish : Int) : Run Unit :=
  traceFrom 3 settings fun _ => "for range " ++ toString start ++ ".." ++ toString finish

def sequence (exec : Node → Run Unit) : List Node → Run Unit
  | [] => pure ()
  | node :: nodes => do
    exec node
    sequence exec nodes

/-- Runs the body as long as the condition holds, with so many passes at most. -/
def whileLoop (condition : Run Bool) (body : Run Unit) : Nat → Run Unit
  | 0 => throw .tooLong
  | passes + 1 => do
    if ← condition then
      body
      whileLoop condition body passes
    else pure ()

def times (body : Run Unit) : Nat → Run Unit
  | 0 => pure ()
  | count + 1 => do
    body
    times body count

def rangeOf (keyword : Token) (start finish : Value) : Run (Int × Int) :=
  match start, finish with
  | .int m, .int n => pure (m, n)
  | _, _ => throw (.fault ⟨some keyword, .rangeNotNumbers⟩)

/-- Runs a statement within so many levels of evaluation. -/
def exec (settings : Settings) : Nat → Node → Run Unit
  | 0, _ => throw .tooDeep
  | depth + 1, node =>
    match node with
    | .exprStmt e => do
      let _ ← eval settings depth e
      pure ()
    | .printStmt e => do
      let value ← eval settings depth e
      print value.display
    | .varDecl name initializer => do
      let value ← if initializer = .absent then pure .nil else eval settings depth initializer
      defineVar name value
      traceDeclare settings name value
    | .ifStmt condition thenBranch elseBranch => do
      let value ← eval settings depth condition
      traceIf settings value
      if value.isTruthy then exec settings depth thenBranch
      else if elseBranch = .absent then pure ()
      else exec settings depth elseBranch
    | .whileStmt condition body =>
      whileLoop
        (do
          let value ← eval settings depth condition
          traceWhile settings value
          pure value.isTruthy)
        (sequence (exec settings depth) body)
        settings.passes
    | .forStmt keyword start finish body => do
      -- Both ends are evaluated once, before the first pass.
      let first ← eval settings depth start
      let last ← eval settings depth finish
      let (m, n) ← rangeOf keyword first last
      traceFor settings m n
      times (sequence (exec settings depth) body) (n - m).toNat
    | other => throw (.breakdown (.unknownStatement other.kindName))

/-- A statement of the program. When it is too deep it faults as a whole. -/
def runStatement (settings : Settings) (node : Node) : Run Unit := fun s =>
  match exec settings settings.depth node s with
  | .error .tooDeep s => .error (.fault ⟨node.anchor?, .nestsTooDeeply⟩) s
  | result => result

def runTraced (settings : Settings) (node : Node) : Run Unit := do
  traceFrom 1 settings fun _ => "exec " ++ node.kindName
  runStatement settings node

end Run

/-- What a run leaves behind. -/
structure RunResult where
  environment : Environment
  output : List String
  trace : List String
  stop : Option Stop
deriving DecidableEq

namespace RunResult

def fault? (r : RunResult) : Option Fault :=
  match r.stop with
  | some (.fault f) => some f
  | _ => none

/-- The run-time error that the run is reported with, if any. -/
def reports (r : RunResult) : List RuntimeReport := r.fault?.toList.map (·.report)

end RunResult

def faultTrace (settings : Settings) (f : Fault) : List String :=
  if 1 ≤ settings.verbosity then
    ["runtime fault at line " ++ toString f.line ++ ": " ++ f.message]
  else []

/-- Runs statements in order up to the first stop. All that happened before it is kept. -/
def interpret (settings : Settings) (environment : Environment) (program : List Node) :
    RunResult :=
  match Run.sequence (Run.runTraced settings) program ⟨environment, #[], #[]⟩ with
  | .ok _ s => ⟨s.environment, s.output.toList, s.trace.toList, none⟩
  | .error (.fault f) s =>
    ⟨s.environment, s.output.toList, s.trace.toList ++ faultTrace settings f, some (.fault f)⟩
  | .error stop s => ⟨s.environment, s.output.toList, s.trace.toList, some stop⟩

end LetLang
