import LetLang.Parser.Basic

namespace LetLang.Parser

/-- The parsers that may be used one level of nesting deeper: for the inside of parentheses, the
operand of a sign, an exponent, an assigned value and the parts of a statement. -/
structure Deeper where
  expression : Parse Node
  assignment : Parse Node
  unary : Parse Node
  statement : Parse Node
  declaration : Parse (Option Node)

/-- More operators and operands to the right of `left`, which they take as their left operand.
The list bounds the number of operators. -/
def chainFrom (operators : List TokenKind) (build : Node → Token → Node → Node)
    (operand : Parse Node) : List Token → Node → Parse Node
  | [], left => pure left
  | _ :: bound, left => do
    match ← accept operators with
    | none => pure left
    | some operator => do
      let right ← operand
      chainFrom operators build operand bound (build left operator right)

/-- Operands between operators that group to the left. -/
def chain (operators : List TokenKind) (build : Node → Token → Node → Node)
    (operand : Parse Node) : Parse Node := do
  let first ← operand
  chainFrom operators build operand (← lookahead) first

variable (deeper : Deeper)

/-- The rest of a parenthesis that has been opened. -/
def groupingRest : Parse Node := do
  let inner ← deeper.expression
  let _ ← expect .rightParen .expectedClosingParen
  pure (.grouping inner)

def primary : Parse Node := do
  match ← accept [.kwTrue, .kwFalse, .number, .string, .identifier, .leftParen] with
  | none => fail .expectedExpression
  | some t =>
    match t.kind with
    | .kwTrue => pure (.literal (.bool true))
    | .kwFalse => pure (.literal (.bool false))
    | .identifier => pure (.var t)
    | .leftParen => groupingRest deeper
    | _ => pure (.literal (.data t.literal))

/-- A power takes all that binds as tightly as a sign for its exponent, further powers too. -/
def exponent : Parse Node := do
  let base ← primary deeper
  match ← accept [.caret] with
  | none => pure base
  | some operator => do
    let power ← deeper.unary
    pure (.binary base operator power)

def unary : Parse Node := do
  match ← accept [.bang, .minus] with
  | none => exponent deeper
  | some operator => do
    let operand ← deeper.unary
    pure (.unary operator operand)

def product : Parse Node := chain [.asterisk, .slash] .binary (unary deeper)

def sum : Parse Node := chain [.plus, .minus] .binary (product deeper)

def comparison : Parse Node :=
  chain [.greater, .greaterEqual, .less, .lessEqual] .binary (sum deeper)

def equality : Parse Node := chain [.equalEqual, .notEqual] .binary (comparison deeper)

def conjunction : Parse Node := chain [.kwAnd] .logical (equality deeper)

def disjunction : Parse Node := chain [.kwOr] .logical (conjunction deeper)

/-- The target is read as an expression and looked at after the value. A bad one is complained
about where the equals sign stands, and it remains as the expression. -/
def assignment : Parse Node := do
  let target ← disjunction deeper
  let ahead ← lookahead
  match ← accept [.equal] with
  | none => pure target
  | some _ => do
    let value ← deeper.assignment
    match target with
    | .var name => pure (.assign name value)
    | _ => do
      complain ahead .invalidAssignment
      pure target

/-- The parsers above go from the tightest binding to the loosest, which is the comma. -/
def expression : Parse Node := chain [.comma] .binary (assignment deeper)

end LetLang.Parser
