import LetLang.Number.Binary64

namespace LetLang.Number

/-- The language's numbers are integers with at most so many decimal digits. -/
def maxDigits : Nat := 4300

/-- The least natural with more than `maxDigits` digits. -/
def limit : Nat := Nat.pow 10 maxDigits

def InRange (n : Int) : Prop := n.natAbs < limit

instance (n : Int) : Decidable (InRange n) := inferInstanceAs (Decidable (_ < _))

/-- The quotient rounded toward zero: the quotient of the sizes, negative when the signs differ. -/
def divide (a b : Int) : Int :=
  let size : Int := (a.natAbs / b.natAbs : Nat)
  if decide (a < 0) != decide (b < 0) then -size else size

def divide? (a b : Int) : Option Int := if b = 0 then none else some (divide a b)

/-- A power is computed in binary floating point and then loses its fraction. There is none when
an operand or the result has no finite value there. -/
def power? (base exponent : Int) : Option Int := do
  let x ← Binary64.ofInt? base
  let y ← Binary64.ofInt? exponent
  let result := x.pow y
  if result.isFinite then some result.truncate else none

def digitValue (c : Char) : Nat := c.toNat - '0'.toNat

/-- The number that a row of decimal digits stands for. -/
def ofDigits (digits : List Char) : Nat :=
  digits.foldl (fun n c => 10 * n + digitValue c) 0

/-- What is said of a text with too many digits to be read. -/
def longTextMessage (digits : Nat) : String :=
  "Exceeds the limit (4300 digits) for integer string conversion: value has " ++
    toString digits ++ " digits; use sys.set_int_max_str_digits() to increase the limit"

end LetLang.Number
