import LetLang.Diagnostic
import LetLang.Node.Display

namespace LetLang

/-- What a program can do wrong. -/
inductive FaultCause where
  | undefinedVariable (name : String)
  | operandNotNumber
  | operandsNotNumbers
  | numberTooLarge
  | divisionByZero
  | powerOutOfRange
  | rangeNotNumbers
  | nestsTooDeeply
  | unsupportedUnary (operator : String)
  | unsupportedBinary (operator : String)
deriving DecidableEq

def FaultCause.message : FaultCause → String
  | .undefinedVariable name => "Undefined variable '" ++ name ++ "'."
  | .operandNotNumber => "Operand must be a number."
  | .operandsNotNumbers => "Operands must be numbers."
  | .numberTooLarge => "Number is too large."
  | .divisionByZero => "Division by zero is undefined."
  | .powerOutOfRange => "Exponent result is out of range."
  | .rangeNotNumbers => "Range must be specified by numbers."
  | .nestsTooDeeply => "Expression nests too deeply."
  | .unsupportedUnary operator => "Unsupported unary operator '" ++ operator ++ "'."
  | .unsupportedBinary operator => "Unsupported binary operator '" ++ operator ++ "'."

/-- A fault of the program, with the token that is blamed for it. -/
structure Fault where
  token : Option Token
  cause : FaultCause
deriving DecidableEq

namespace Fault

/-- Line 0 stands for no line. -/
def line (f : Fault) : Int := (f.token.map (·.line)).getD 0

def message (f : Fault) : String := f.cause.message

def report (f : Fault) : RuntimeReport := ⟨f.line, f.message⟩

end Fault

/-- A tree that cannot be run at all. Only a tree from a document can be like that. -/
inductive Breakdown where
  | unknownStatement (kindName : String)
  | unknownExpression (kindName : String)
  | notAValue (value : Value)
  /-- A variable is named by an array or an object. -/
  | notAName (name : Json)
deriving DecidableEq

def Breakdown.message : Breakdown → String
  | .unknownStatement kindName => "unknown statement node " ++ kindName
  | .unknownExpression kindName => "unknown expression node " ++ kindName
  | .notAValue value => "not a runtime value: " ++ value.inspect
  | .notAName name => name.notANameMessage

inductive Stop where
  | fault (f : Fault)
  | breakdown (b : Breakdown)
  /-- The tree is deeper than the levels of evaluation. -/
  | tooDeep
  /-- A loop made more passes than it may. -/
  | tooLong
deriving DecidableEq

end LetLang
