import LetLang.Token.Kind

namespace LetLang.Strict

inductive Rule where
  | program
  | declaration
  | varDecl
  | statement
  | ifStmt
  | printStmt
  | forStmt
  | whileStmt
  | block
  | exprStmt
  | expression
  | comma
  | assignment
  | logicOr
  | logicAnd
  | equality
  | comparison
  | sum
  | product
  | unary
  | exponent
  | primary
  | trueLiteral
  | falseLiteral
  | numberLiteral
  | stringLiteral
  | variableName
  | grouping
deriving DecidableEq

/-- A right-hand side of the grammar. A token that is only spelling leaves no trace in the tree; the
others are kept. -/
inductive Pattern where
  /-- A token of one of these kinds that is kept. -/
  | keep (kinds : List TokenKind)
  /-- A token of this kind that is only spelling. -/
  | skip (kind : TokenKind)
  | rule (r : Rule)
  | seq (first second : Pattern)
  | either (first second : Pattern)
  | optional (p : Pattern)
  | many (p : Pattern)
deriving DecidableEq

namespace Pattern

/-- One pattern after another. -/
def sequence (first : Pattern) : List Pattern → Pattern
  | [] => first
  | p :: ps => .seq first (sequence p ps)

/-- One of several patterns. -/
def oneOf (first : Pattern) : List Pattern → Pattern
  | [] => first
  | p :: ps => .either first (oneOf p ps)

/-- Operands with operators between them. -/
def separated (operand : Rule) (operators : List TokenKind) : Pattern :=
  .seq (.rule operand) (.many (.seq (.keep operators) (.rule operand)))

end Pattern

open Pattern in
/-- The right-hand side of each rule. -/
def Rule.pattern : Rule → Pattern
  | .program => .many (.rule .declaration)
  | .declaration => oneOf (.rule .varDecl) [.rule .statement]
  | .varDecl => sequence (.skip .kwLet) [.keep [.identifier],
      .optional (.seq (.skip .equal) (.rule .expression)), .skip .semicolon]
  | .statement => oneOf (.rule .ifStmt) [.rule .printStmt, .rule .forStmt, .rule .whileStmt,
      .rule .exprStmt]
  | .ifStmt => sequence (.skip .kwIf) [.rule .expression, .skip .kwThen, .rule .statement,
      .optional (.seq (.skip .kwElse) (.rule .statement))]
  | .printStmt => sequence (.skip .kwPrint) [.rule .expression, .skip .semicolon]
  | .forStmt => sequence (.keep [.kwFor]) [.keep [.identifier], .skip .kwIn, .rule .sum,
      .skip .doubleDot, .rule .sum, .skip .kwBegin, .rule .block, .skip .kwEnd]
  | .whileStmt => sequence (.skip .kwWhile) [.rule .expression, .skip .kwBegin, .rule .block,
      .skip .kwEnd]
  | .block => .many (.rule .declaration)
  | .exprStmt => sequence (.rule .expression) [.skip .semicolon]
  | .expression => .rule .comma
  | .comma => separated .assignment [.comma]
  | .assignment => .seq (.rule .logicOr)
      (.optional (.seq (.keep [.equal]) (.rule .assignment)))
  | .logicOr => separated .logicAnd [.kwOr]
  | .logicAnd => separated .equality [.kwAnd]
  | .equality => separated .comparison [.equalEqual, .notEqual]
  | .comparison => separated .sum [.greater, .greaterEqual, .less, .lessEqual]
  | .sum => separated .product [.plus, .minus]
  | .product => separated .unary [.asterisk, .slash]
  | .unary => oneOf (.seq (.keep [.bang, .minus]) (.rule .unary)) [.rule .exponent]
  | .exponent => .seq (.rule .primary) (.optional (.seq (.keep [.caret]) (.rule .unary)))
  | .primary => oneOf (.rule .trueLiteral) [.rule .falseLiteral, .rule .numberLiteral,
      .rule .stringLiteral, .rule .variableName, .rule .grouping]
  | .trueLiteral => .skip .kwTrue
  | .falseLiteral => .skip .kwFalse
  | .numberLiteral => .keep [.number]
  | .stringLiteral => .keep [.string]
  | .variableName => .keep [.identifier]
  | .grouping => sequence (.skip .leftParen) [.rule .expression, .skip .rightParen]

/-- Rules that leave no node of their own over a single child. -/
def Rule.isTransparent : Rule → Bool
  | .declaration | .statement | .expression | .comma | .assignment | .logicOr | .logicAnd
  | .equality | .comparison | .sum | .product | .unary | .exponent | .primary => true
  | _ => false

def expressionStarters : List TokenKind :=
  [.bang, .minus, .kwTrue, .kwFalse, .number, .string, .identifier, .leftParen]

def statementStarters : List TokenKind :=
  [.kwIf, .kwPrint, .kwFor, .kwWhile] ++ expressionStarters

/-- The kinds of token that a text of the rule may start with. -/
def Rule.starters : Rule → List TokenKind
  | .program | .declaration | .block => .kwLet :: statementStarters
  | .varDecl => [.kwLet]
  | .statement => statementStarters
  | .ifStmt => [.kwIf]
  | .printStmt => [.kwPrint]
  | .forStmt => [.kwFor]
  | .whileStmt => [.kwWhile]
  | .exponent | .primary =>
    [.kwTrue, .kwFalse, .number, .string, .identifier, .leftParen]
  | .trueLiteral => [.kwTrue]
  | .falseLiteral => [.kwFalse]
  | .numberLiteral => [.number]
  | .stringLiteral => [.string]
  | .variableName => [.identifier]
  | .grouping => [.leftParen]
  | _ => expressionStarters

/-- May a text of the pattern start with a token of this kind? No pattern of the grammar begins
with one that may be empty, so the first part of a sequence decides. -/
def Pattern.startsWith (kind : TokenKind) : Pattern → Bool
  | .keep kinds => kind ∈ kinds
  | .skip k => kind = k
  | .rule r => kind ∈ r.starters
  | .seq first _ => first.startsWith kind
  | .either first second => first.startsWith kind || second.startsWith kind
  | .optional p | .many p => p.startsWith kind

/-- The list of first tokens of each rule is what its right-hand side gives. -/
theorem Rule.startsWith_pattern (r : Rule) (kind : TokenKind) :
    r.pattern.startsWith kind = decide (kind ∈ r.starters) := by
  cases r <;> cases kind <;> decide

end LetLang.Strict
