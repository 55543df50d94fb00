import LetLang.Number.Range

namespace LetLang.Number

inductive TextError where
  | notANumber
  | tooManyDigits (count : Nat)
deriving DecidableEq

/-- The digits for zero in Unicode 14; nine more digits follow each. -/
def zeroDigits : List Nat := [
  0x30, 0x660, 0x6F0, 0x7C0, 0x966, 0x9E6, 0xA66, 0xAE6, 0xB66, 0xBE6, 0xC66, 0xCE6, 0xD66,
  0xDE6, 0xE50, 0xED0, 0xF20, 0x1040, 0x1090, 0x17E0, 0x1810, 0x1946, 0x19D0, 0x1A80, 0x1A90,
  0x1B50, 0x1BB0, 0x1C40, 0x1C50, 0xA620, 0xA8D0, 0xA900, 0xA9D0, 0xA9F0, 0xAA50, 0xABF0, 0xFF10,
  0x104A0, 0x10D30, 0x11066, 0x110F0, 0x11136, 0x111D0, 0x112F0, 0x11450, 0x114D0, 0x11650,
  0x116C0, 0x11730, 0x118E0, 0x11950, 0x11C50, 0x11D50, 0x11DA0, 0x16A60, 0x16AC0, 0x16B50,
  0x1D7CE, 0x1D7D8, 0x1D7E2, 0x1D7EC, 0x1D7F6, 0x1E140, 0x1E2F0, 0x1E950, 0x1FBF0]

def decimalDigit? (c : Char) : Option Nat :=
  (zeroDigits.find? fun first => first ≤ c.toNat && c.toNat < first + 10).map (c.toNat - ·)

/-- Blanks; of the control characters only those that move the print position. -/
def isSpace (c : Char) : Bool :=
  let n := c.toNat
  n == 32 || (9 ≤ n && n ≤ 13) || n == 0x85 || n == 0xA0 || n == 0x1680 ||
    (0x2000 ≤ n && n ≤ 0x200A) || n == 0x2028 || n == 0x2029 || n == 0x202F || n == 0x205F ||
    n == 0x3000

def isDigitOrMark (c : Char) : Bool := c == '_' || (decimalDigit? c).isSome

/-- Underscores stand between digits and never side by side. -/
def marksAreSingle : List Char → Bool
  | [] => false
  | [c] => c != '_'
  | c :: d :: rest => (c != '_' || d != '_') && marksAreSingle (d :: rest)

/-- A number after its sign. -/
def sizeOfText (cs : List Char) : Except TextError Nat :=
  let run := cs.takeWhile isDigitOrMark
  let digits := run.filterMap decimalDigit?
  if run.head? = some '_' || !marksAreSingle run then .error .notANumber
  else if digits.length > maxDigits then .error (.tooManyDigits digits.length)
  else if (cs.dropWhile isDigitOrMark).all isSpace then
    .ok (digits.foldl (fun n digit => 10 * n + digit) 0)
  else .error .notANumber

/-- A whole number written by hand: blanks around, a sign, digits of any script, and single
underscores between digits. -/
def ofText (cs : List Char) : Except TextError Int :=
  match cs.dropWhile isSpace with
  | '-' :: rest => (sizeOfText rest).map fun n : Nat => -(n : Int)
  | '+' :: rest => (sizeOfText rest).map fun n : Nat => (n : Int)
  | rest => (sizeOfText rest).map fun n : Nat => (n : Int)

end LetLang.Number
