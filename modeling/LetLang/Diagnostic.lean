import LetLang.Token.Basic

namespace LetLang

inductive LexicalError where
  | unexpectedCharacter
  | invalidNumber
  | unterminatedString
deriving DecidableEq

def LexicalError.message : LexicalError → String
  | .unexpectedCharacter => "Unexpected character."
  | .invalidNumber => "Invalid number literal."
  | .unterminatedString => "Unterminated string."

inductive SyntaxError where
  | expectedExpression
  | expectedVariableName
  | expectedLoopVariable
  | expectedIn
  | expectedRangeDots
  | expectedBeginAfterRange
  | expectedBeginAfterCondition
  | expectedEnd
  | expectedThen
  | expectedClosingParen
  | expectedSemicolonAfterDeclaration
  | expectedSemicolonAfterExpression
  | invalidAssignment
  | expressionTooDeep
  | statementTooDeep
deriving DecidableEq

def SyntaxError.message : SyntaxError → String
  | .expectedExpression => "Expected expression."
  | .expectedVariableName => "Expected variable name."
  | .expectedLoopVariable => "Expected loop variable name after 'for'."
  | .expectedIn => "Expected 'in' after loop variable."
  | .expectedRangeDots => "Expected '..' after range start."
  | .expectedBeginAfterRange => "Expected 'begin' after range."
  | .expectedBeginAfterCondition => "Expected 'begin' after condition."
  | .expectedEnd => "Expected 'end' after block."
  | .expectedThen => "Expected 'then' after condition."
  | .expectedClosingParen => "Expected ')' after expression."
  | .expectedSemicolonAfterDeclaration => "Expected ';' after declaration."
  | .expectedSemicolonAfterExpression => "Expected ';' after expression."
  | .invalidAssignment => "Invalid assignment."
  | .expressionTooDeep => "Expression nests too deeply."
  | .statementTooDeep => "Statement nests too deeply."

/-- A static error: the line, a hint where on it, and what is wrong. -/
structure Report where
  line : Int
  place : String
  message : String
deriving DecidableEq

/-- The hint for an error at a piece of text. -/
def Report.placeAt (text : String) : String := "at '" ++ text ++ "'"

def Report.placeAtEnd : String := "at end"

/-- A run-time error. Line 0 is no line. -/
structure RuntimeReport where
  line : Int
  message : String
deriving DecidableEq

/-- What was reported in a run. -/
structure Log where
  errors : List Report
  runtimeErrors : List RuntimeReport
deriving DecidableEq

namespace Log

def empty : Log := ⟨[], []⟩

def addErrors (log : Log) (reports : List Report) : Log :=
  { log with errors := log.errors ++ reports }

def addRuntimeErrors (log : Log) (reports : List RuntimeReport) : Log :=
  { log with runtimeErrors := log.runtimeErrors ++ reports }

def hadError (log : Log) : Bool := !log.errors.isEmpty

def hadRuntimeError (log : Log) : Bool := !log.runtimeErrors.isEmpty

def messages (log : Log) : List String :=
  log.errors.map (·.message) ++ log.runtimeErrors.map (·.message)

end Log

end LetLang
