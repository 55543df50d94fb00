import LetLang.Execution.Fault
import LetLang.Number.Range

namespace LetLang.Operator

def faultAt {α : Type} (operator : Token) (cause : FaultCause) : Except Stop α :=
  .error (.fault ⟨some operator, cause⟩)

/-- The bounds are checked after the exact result is known. -/
def inRange (operator : Token) (n : Int) : Except Stop Value :=
  if Number.InRange n then .ok (.int n) else faultAt operator .numberTooLarge

def equal (a b : Value) : Except Stop Bool :=
  match a.equal b with
  | .ok result => .ok result
  | .error value => .error (.breakdown (.notAValue value))

def applyUnary (operator : Token) (a : Value) : Except Stop Value :=
  match operator.kind, a with
  | .bang, _ => .ok (.bool !a.isTruthy)
  | .minus, .int n => .ok (.int (-n))
  | .minus, _ => faultAt operator .operandNotNumber
  | _, _ => faultAt operator (.unsupportedUnary operator.text)

/-- The operators that take numbers only. -/
def arithmetic (operator : Token) (m n : Int) : Except Stop Value :=
  match operator.kind with
  | .plus => inRange operator (m + n)
  | .minus => inRange operator (m - n)
  | .asterisk => inRange operator (m * n)
  | .slash =>
    match Number.divide? m n with
    | some result => .ok (.int result)
    | none => faultAt operator .divisionByZero
  | .caret =>
    match Number.power? m n with
    | some result => .ok (.int result)
    | none => faultAt operator .powerOutOfRange
  | .greater => .ok (.bool (decide (n < m)))
  | .greaterEqual => .ok (.bool (decide (n ≤ m)))
  | .less => .ok (.bool (decide (m < n)))
  | .lessEqual => .ok (.bool (decide (m ≤ n)))
  | _ => faultAt operator (.unsupportedBinary operator.text)

def onNumbers (operator : Token) (a b : Value) : Except Stop Value :=
  match a, b with
  | .int m, .int n => arithmetic operator m n
  | _, _ => faultAt operator .operandsNotNumbers

/-- A plus joins two strings, a comma gives its right operand, and equality takes any values. -/
def applyBinary (operator : Token) (a b : Value) : Except Stop Value :=
  match operator.kind with
  | .comma => .ok b
  | .equalEqual => (equal a b).map .bool
  | .notEqual => (equal a b).map fun result => .bool !result
  | .plus =>
    match a, b with
    | .str s, .str t => .ok (.str (s ++ t))
    | _, _ => onNumbers operator a b
  | _ => onNumbers operator a b

end LetLang.Operator
