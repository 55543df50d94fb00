import LetLang.Json.Display

namespace LetLang

/-- A value of a running program. A tree that was read from a document may carry any other data
value as a literal; such a value can be stored and printed, but it has no kind. -/
inductive Value where
  | nil
  | data (j : Json)
deriving DecidableEq, Inhabited

namespace Value

@[match_pattern] abbrev bool (b : Bool) : Value := .data (.bool b)

@[match_pattern] abbrev int (n : Int) : Value := .data (.int n)

@[match_pattern] abbrev str (s : String) : Value := .data (.str s)

inductive Kind where
  | nil
  | boolean
  | number
  | string
deriving DecidableEq

def Kind.name : Kind → String
  | .nil => "nil"
  | .boolean => "boolean"
  | .number => "number"
  | .string => "string"

def kind? : Value → Option Kind
  | .nil => some .nil
  | .bool _ => some .boolean
  | .int _ => some .number
  | .str _ => some .string
  | _ => none

def isNumber (v : Value) : Bool := v.kind? == some .number

/-- Only nil and false count as false. -/
def isTruthy : Value → Bool
  | .nil => false
  | .bool b => b
  | _ => true

/-- What `print` shows. -/
def display : Value → String
  | .nil => "nil"
  | .bool true => "true"
  | .bool false => "false"
  | .data j => j.display

/-- The text of a value in a trace or an error message. -/
def inspect : Value → String
  | .nil => "nil"
  | .data j => j.inspect

/-- The kind of a value; a value without one is the error. -/
def kind (v : Value) : Except Value Kind :=
  match v.kind? with
  | some k => .ok k
  | none => .error v

/-- Equality without conversion between kinds. Nil may be compared with anything; other operands
must have kinds, and the first one without is the error. -/
def equal (a b : Value) : Except Value Bool := do
  if a = .nil ∨ b = .nil then return decide (a = b)
  let _ ← a.kind
  let _ ← b.kind
  return decide (a = b)

/-- Agreement of literals, which need not have kinds. -/
def agrees : Value → Value → Bool
  | .nil, .nil => true
  | .data a, .data b => a.agrees b
  | _, _ => false

end Value

end LetLang
