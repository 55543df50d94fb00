import LetLang.Proofs.Parsing.Program
import LetLang.Proofs.Parsing.Progress

namespace LetLang.Parser

/-- An attempt at a declaration. A place in the text is given by the tokens from there on. -/
structure Attempt where
  ahead : List Token
  /-- Nothing if the declaration was dropped. -/
  found : Option Node
  /-- Where the declaration ended or failed. -/
  stop : List Token
  /-- Where parsing went on. -/
  rest : List Token
deriving DecidableEq

def Attempt.isDropped (a : Attempt) : Bool := a.found.isNone

/-- A parser with the attempts that ended in it, in the order in which they ended. -/
def Recorder (α : Type) := List Token → Outcome α × List Attempt

namespace Recorder

variable {α β : Type}

protected def pure (a : α) : Recorder α := fun ts => (⟨some a, ts, []⟩, [])

protected def bind (f : Recorder α) (g : α → Recorder β) : Recorder β := fun ts =>
  let (first, attempts) := f ts
  match first.result with
  | none => (⟨none, first.rest, first.complaints⟩, attempts)
  | some a =>
    let (second, others) := g a first.rest
    (⟨second.result, second.rest, first.complaints ++ second.complaints⟩, attempts ++ others)

instance : Monad Recorder where
  pure := Recorder.pure
  bind := Recorder.bind

/-- A parser in which no declaration is tried. -/
def plain (f : Parse α) : Recorder α := fun ts => (f ts, [])

/-- The parser without the record. -/
def parser (f : Recorder α) : Parse α := fun ts => (f ts).1

@[simp] theorem parser_plain (f : Parse α) : (plain f).parser = f := rfl

@[simp] theorem parser_pure (a : α) : (pure a : Recorder α).parser = pure a := rfl

@[simp] theorem parser_bind (f : Recorder α) (g : α → Recorder β) :
    (f >>= g).parser = f.parser >>= fun a => (g a).parser := by
  funext ts
  simp only [parser, Bind.bind, Recorder.bind, Parse.bind]
  cases (f ts).1.result <;> rfl

section
variable {f : Recorder α} {g : α → Recorder β} {ts : List Token}

theorem bind_failed (h : (f ts).1.result = none) :
    (f >>= g) ts = (⟨none, (f ts).1.rest, (f ts).1.complaints⟩, (f ts).2) := by
  simp only [Bind.bind, Recorder.bind, h]

theorem bind_found {a : α} (h : (f ts).1.result = some a) :
    (f >>= g) ts =
      (⟨(g a (f ts).1.rest).1.result, (g a (f ts).1.rest).1.rest,
        (f ts).1.complaints ++ (g a (f ts).1.rest).1.complaints⟩,
        (f ts).2 ++ (g a (f ts).1.rest).2) := by
  simp only [Bind.bind, Recorder.bind, h]

end

theorem plain_bind {f : Parse α} {g : α → Recorder β} {ts rest : List Token} {a : α}
    (h : f ts = ⟨some a, rest, []⟩) : (plain f >>= g) ts = g a rest := by
  simp only [Bind.bind, Recorder.bind, plain, h, List.nil_append]

/-- The recorders one level deeper. -/
structure Deeper where
  statement : Recorder Node
  declaration : Recorder (Option Node)

variable (deeper : Parser.Deeper) (inner : Deeper)

def orAbsent (kind : TokenKind) (f : Recorder Node) : Recorder Node := do
  match ← plain (accept [kind]) with
  | none => pure .absent
  | some _ => f

def ifStmt : Recorder Node := do
  let condition ← plain (expression deeper)
  let _ ← plain (expect .kwThen .expectedThen)
  let thenBranch ← inner.statement
  let elseBranch ← orAbsent .kwElse inner.statement
  pure (.ifStmt condition thenBranch elseBranch)

/-- Declarations up to a token that closes them, or the end. -/
def row (closes : Token → Bool) (declaration : Recorder (Option Node)) :
    List Token → Recorder (List Node)
  | [] => pure []
  | _ :: bound => do
    match ← plain lookahead with
    | [] => pure []
    | t :: _ =>
      if closes t then pure []
      else do
        let first ← declaration
        let others ← row closes declaration bound
        pure (first.toList ++ others)

def block : Recorder (List Node) := do
  let body ← row (·.kind = .kwEnd) inner.declaration (← plain lookahead)
  let _ ← plain (expect .kwEnd .expectedEnd)
  pure body

def forStmt (keyword : Token) : Recorder Node := do
  let _ ← plain (expect .identifier .expectedLoopVariable)
  let _ ← plain (expect .kwIn .expectedIn)
  let start ← plain (sum deeper)
  let _ ← plain (expect .doubleDot .expectedRangeDots)
  let finish ← plain (sum deeper)
  let _ ← plain (expect .kwBegin .expectedBeginAfterRange)
  let body ← block inner
  pure (.forStmt keyword start finish body)

def whileStmt : Recorder Node := do
  let condition ← plain (expression deeper)
  let _ ← plain (expect .kwBegin .expectedBeginAfterCondition)
  let body ← block inner
  pure (.whileStmt condition body)

def statement : Recorder Node := do
  match ← plain (accept [.kwIf, .kwPrint, .kwFor, .kwWhile]) with
  | none => plain (exprStmt deeper .exprStmt)
  | some t =>
    match t.kind with
    | .kwIf => ifStmt deeper inner
    | .kwPrint => plain (exprStmt deeper .printStmt)
    | .kwFor => forStmt deeper inner t
    | _ => whileStmt deeper inner

def declarationOrFail : Recorder Node := do
  match ← plain (accept [.kwLet]) with
  | none => statement deeper inner
  | some _ => plain (varDecl deeper)

/-- The attempts inside of a declaration end before it does. -/
def declaration : Recorder (Option Node) := fun ts =>
  let (attempt, nested) := declarationOrFail deeper inner ts
  let rest := if attempt.result.isSome then attempt.rest else resume attempt.rest
  (⟨some attempt.result, rest, attempt.complaints⟩,
    nested ++ [⟨ts, attempt.result, attempt.rest, rest⟩])

def within : Nat → Deeper
  | 0 => ⟨plain (fail .statementTooDeep), plain (fail .statementTooDeep)⟩
  | levels + 1 =>
    ⟨statement (deeperWithin levels) (within levels),
      declaration (deeperWithin levels) (within levels)⟩

/-- The declarations of a whole program. -/
def program (tokens : List Token) : Outcome (List Node) × List Attempt :=
  row (fun _ => false) (declaration (deeperWithin maxNesting) (within maxNesting)) tokens tokens

structure Mirrors (deeper : Parser.Deeper) (inner : Deeper) : Prop where
  statement : inner.statement.parser = deeper.statement
  declaration : inner.declaration.parser = deeper.declaration

section
variable {deeper inner} (h : Mirrors deeper inner)

@[simp] theorem parser_orAbsent (kind : TokenKind) (f : Recorder Node) :
    (orAbsent kind f).parser = Parser.orAbsent kind f.parser := by
  rw [orAbsent, parser_bind, Parser.orAbsent]
  refine bind_congr fun found => ?_
  cases found <;> rfl

include h

theorem parser_ifStmt : (ifStmt deeper inner).parser = Parser.ifStmt deeper := by
  rw [ifStmt_eq, ifStmt]
  simp only [parser_bind, parser_plain, parser_pure, parser_orAbsent, h.statement]

theorem parser_row (bound : List Token) :
    (row (·.kind = .kwEnd) inner.declaration bound).parser =
      blockBody deeper.declaration bound := by
  induction bound with
  | nil => rfl
  | cons b bound ih =>
    rw [row, blockBody, parser_bind]
    refine bind_congr fun ahead => ?_
    cases ahead with
    | nil => rfl
    | cons t ts =>
      by_cases ht : t.kind = .kwEnd
      · simp [ht]
      · simp only [ht, decide_false, Bool.false_eq_true, if_false, parser_bind, parser_pure, ih,
          h.declaration]

theorem parser_block : (block inner).parser = Parser.block deeper := by
  rw [block, Parser.block]
  simp only [parser_bind, parser_plain, parser_pure, parser_row h]

theorem parser_forStmt (keyword : Token) :
    (forStmt deeper inner keyword).parser = Parser.forStmt deeper keyword := by
  rw [forStmt, Parser.forStmt]
  simp only [parser_bind, parser_plain, parser_pure, parser_block h]

theorem parser_whileStmt : (whileStmt deeper inner).parser = Parser.whileStmt deeper := by
  rw [whileStmt, Parser.whileStmt]
  simp only [parser_bind, parser_plain, parser_pure, parser_block h]

theorem parser_statement : (statement deeper inner).parser = Parser.statement deeper := by
  rw [statement, Parser.statement, parser_bind]
  refine bind_congr fun found => ?_
  cases found with
  | none => rfl
  | some t =>
    dsimp only
    cases t.kind with
    | kwIf => exact parser_ifStmt h
    | kwPrint => rfl
    | kwFor => exact parser_forStmt h t
    | _ => exact parser_whileStmt h

theorem parser_declarationOrFail :
    (declarationOrFail deeper inner).parser = Parser.declarationOrFail deeper := by
  rw [declarationOrFail, Parser.declarationOrFail, parser_bind]
  refine bind_congr fun found => ?_
  cases found with
  | none => exact parser_statement h
  | some t => rfl

theorem parser_declaration : (declaration deeper inner).parser = Parser.declaration deeper := by
  funext ts
  have hf := congrFun (parser_declarationOrFail h) ts
  unfold parser at hf
  unfold parser declaration Parser.declaration
  dsimp only
  rw [← hf]
  cases (declarationOrFail deeper inner ts).1.result <;> rfl

end

theorem within_mirrors (n : Nat) : Mirrors (deeperWithin n) (within n) := by
  induction n with
  | zero => exact ⟨rfl, rfl⟩
  | succ n ih => exact ⟨parser_statement ih, parser_declaration ih⟩

/-- One more declaration of a row. -/
theorem parser_row_cons {closes : Token → Bool} {declaration : Recorder (Option Node)}
    {b t : Token} (bound ts : List Token) (ht : closes t = false) :
    (row closes declaration (b :: bound)).parser (t :: ts) =
      (declaration.parser >>= fun first => (row closes declaration bound).parser >>= fun others =>
        pure (first.toList ++ others)) (t :: ts) := by
  rw [row, parser_bind, parser_plain, lookahead_bind]
  simp only [ht, Bool.false_eq_true, if_false, parser_bind, parser_pure]

theorem parser_row_program {deeper : Parser.Deeper} {inner : Deeper} (h : Mirrors deeper inner)
    (bound ts : List Token) :
    ((row (fun _ => false) (declaration deeper inner) bound).parser ts).result =
        some (declarations (Parser.declaration deeper) bound ts).1 ∧
      ((row (fun _ => false) (declaration deeper inner) bound).parser ts).complaints =
        (declarations (Parser.declaration deeper) bound ts).2 := by
  induction bound generalizing ts with
  | nil => exact ⟨rfl, rfl⟩
  | cons b bound ih =>
    cases ts with
    | nil => exact ⟨rfl, rfl⟩
    | cons t ts =>
      obtain ⟨first, hfirst⟩ := Option.isSome_iff_exists.1 (isSome_declaration deeper (t :: ts))
      obtain ⟨hresult, hcomplaints⟩ := ih (Parser.declaration deeper (t :: ts)).rest
      rw [parser_row_cons bound ts rfl, parser_declaration h, bind_of_some hfirst, bind_pure_eq,
        hresult, hcomplaints, declarations, hfirst]
      exact ⟨rfl, rfl⟩

/-- The record is one of the parser's own run. -/
theorem outcome_program (ts : List Token) :
    (program ts).1.result = some (Parser.program ts).1 ∧
      (program ts).1.complaints = (Parser.program ts).2 :=
  parser_row_program (within_mirrors maxNesting) ts ts

end Recorder

end LetLang.Parser
