import LetLang.Parser.Expression

namespace LetLang.Parser

variable (deeper : Deeper)

def varDecl : Parse Node := do
  let name ← expect .identifier .expectedVariableName
  let initializer ←
    match ← accept [.equal] with
    | none => pure Node.absent
    | some _ => expression deeper
  let _ ← expect .semicolon .expectedSemicolonAfterDeclaration
  pure (.varDecl name initializer)

def exprStmt (build : Node → Node) : Parse Node := do
  let e ← expression deeper
  let _ ← expect .semicolon .expectedSemicolonAfterExpression
  pure (build e)

/-- The branches of a condition are one level deeper. An `else` belongs to the nearest `if`. -/
def ifStmt : Parse Node := do
  let condition ← expression deeper
  let _ ← expect .kwThen .expectedThen
  let thenBranch ← deeper.statement
  let elseBranch ←
    match ← accept [.kwElse] with
    | none => pure Node.absent
    | some _ => deeper.statement
  pure (.ifStmt condition thenBranch elseBranch)

/-- The declarations before the end of a block, each one level deeper. The list bounds their
number. -/
def blockBody (declaration : Parse (Option Node)) : List Token → Parse (List Node)
  | [] => pure []
  | _ :: bound => do
    match ← lookahead with
    | [] => pure []
    | t :: _ =>
      if t.kind = .kwEnd then pure []
      else do
        let first ← declaration
        let others ← blockBody declaration bound
        pure (first.toList ++ others)

def block : Parse (List Node) := do
  let body ← blockBody deeper.declaration (← lookahead)
  let _ ← expect .kwEnd .expectedEnd
  pure body

/-- The loop variable is required but stands for nothing. -/
def forStmt (keyword : Token) : Parse Node := do
  let _ ← expect .identifier .expectedLoopVariable
  let _ ← expect .kwIn .expectedIn
  let start ← sum deeper
  let _ ← expect .doubleDot .expectedRangeDots
  let finish ← sum deeper
  let _ ← expect .kwBegin .expectedBeginAfterRange
  let body ← block deeper
  pure (.forStmt keyword start finish body)

def whileStmt : Parse Node := do
  let condition ← expression deeper
  let _ ← expect .kwBegin .expectedBeginAfterCondition
  let body ← block deeper
  pure (.whileStmt condition body)

def statement : Parse Node := do
  match ← accept [.kwIf, .kwPrint, .kwFor, .kwWhile] with
  | none => exprStmt deeper .exprStmt
  | some t =>
    match t.kind with
    | .kwIf => ifStmt deeper
    | .kwPrint => exprStmt deeper .printStmt
    | .kwFor => forStmt deeper t
    | _ => whileStmt deeper

def declarationOrFail : Parse Node := do
  match ← accept [.kwLet] with
  | none => statement deeper
  | some _ => varDecl deeper

def startsStatement (t : Token) : Bool :=
  t.kind ∈ [.kwLet, .kwPrint, .kwIf, .kwFor, .kwWhile]

/-- Skips one token at least, and then up to a semicolon or before a token that starts a
statement. -/
def resume : List Token → List Token
  | [] => []
  | t :: rest =>
    if t.kind = .semicolon then rest
    else
      match rest with
      | [] => []
      | next :: _ => if startsStatement next then rest else resume rest

/-- A declaration, or nothing in place of one that failed, which is dropped with the tokens up to
the next place where a statement may start. -/
def declaration : Parse (Option Node) := fun ts =>
  let attempt := declarationOrFail deeper ts
  match attempt.result with
  | some node => ⟨some (some node), attempt.rest, attempt.complaints⟩
  | none => ⟨some none, resume attempt.rest, attempt.complaints⟩

def maxNesting : Nat := 50

/-- The parsers one level deeper when so many more levels are allowed. -/
def deeperWithin : Nat → Deeper
  | 0 =>
    { expression := fail .expressionTooDeep
      assignment := fail .expressionTooDeep
      unary := fail .expressionTooDeep
      statement := fail .statementTooDeep
      declaration := fail .statementTooDeep }
  | levels + 1 =>
    let deeper := deeperWithin levels
    { expression := expression deeper
      assignment := assignment deeper
      unary := unary deeper
      statement := statement deeper
      declaration := declaration deeper }

/-- The declarations of a whole program. The first list bounds their number. -/
def declarations (declaration : Parse (Option Node)) :
    List Token → List Token → List Node × List Complaint
  | _ :: bound, t :: ts =>
    let first := declaration (t :: ts)
    let others := declarations declaration bound first.rest
    (first.result.join.toList ++ others.1, first.complaints ++ others.2)
  | _, _ => ([], [])

def program (tokens : List Token) : List Node × List Complaint :=
  declarations (declaration (deeperWithin maxNesting)) tokens tokens

/-- Where and how a complaint is reported. With no token ahead it is about the end of input. -/
def Complaint.report (endLine : Int) (c : Complaint) : Report :=
  match c.ahead with
  | t :: _ => ⟨t.line, Report.placeAt t.text, c.error.message⟩
  | [] => ⟨endLine, Report.placeAtEnd, c.error.message⟩

structure Parsed where
  program : List Node
  reports : List Report
deriving DecidableEq

/-- The tokens before the first one that stands for the end of input. -/
def body (tokens : List Token) : List Token := tokens.takeWhile (·.kind != .eof)

/-- The line of the end of input: that of its token, or else of the last token. -/
def endLine (tokens : List Token) : Int :=
  match tokens.find? (·.kind == .eof) with
  | some t => t.line
  | none => (tokens.getLast?.map (·.line)).getD 1

/-- The statements that could be parsed, and a report on each complaint. -/
def parse (tokens : List Token) : Parsed :=
  let (program, complaints) := program (body tokens)
  ⟨program, complaints.map (·.report (endLine tokens))⟩

end LetLang.Parser
