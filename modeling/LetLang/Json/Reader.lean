import LetLang.Json.Basic
import LetLang.Number.Range

namespace LetLang.Json

inductive ReadError where
  | malformed
  /-- A whole number with more digits than the language's numbers may have. -/
  | tooManyDigits (count : Nat)
deriving DecidableEq

def ReadError.message : ReadError → String
  | .malformed => "malformed document"
  | .tooManyDigits count => Number.longTextMessage count

def isBlank (c : Char) : Bool := c == ' ' || c == '\t' || c == '\n' || c == '\r'

def skipBlanks (cs : List Char) : List Char := cs.dropWhile isBlank

def hexValue? (c : Char) : Option Nat :=
  let n := c.toNat
  if 48 ≤ n ∧ n ≤ 57 then some (n - 48)
  else if 97 ≤ n ∧ n ≤ 102 then some (n - 87)
  else if 65 ≤ n ∧ n ≤ 70 then some (n - 55)
  else none

def codeUnit? (a b c d : Char) : Option Nat := do
  let a ← hexValue? a
  let b ← hexValue? b
  let c ← hexValue? c
  let d ← hexValue? d
  return ((a * 16 + b) * 16 + c) * 16 + d

def plainEscape? : Char → Option Char
  | '\x22' => some '\x22'
  | '\\' => some '\\'
  | '/' => some '/'
  | 'b' => some '\x08'
  | 'f' => some '\x0c'
  | 'n' => some '\n'
  | 'r' => some '\r'
  | 't' => some '\t'
  | _ => none

/-- The code points of a string up to its closing quote. An escape gives a half of a pair its
own entry. -/
def codePoints? : List Char → Option (List Nat × List Char)
  | [] => none
  | '\x22' :: rest => some ([], rest)
  | '\\' :: 'u' :: a :: b :: c :: d :: rest => do
    let unit ← codeUnit? a b c d
    let (points, rest) ← codePoints? rest
    return (unit :: points, rest)
  | '\\' :: e :: rest => do
    let c ← plainEscape? e
    let (points, rest) ← codePoints? rest
    return (c.toNat :: points, rest)
  | c :: rest =>
    if c.toNat < 0x20 then none
    else do
      let (points, rest) ← codePoints? rest
      return (c.toNat :: points, rest)

def isHighHalf (n : Nat) : Bool := 0xD800 ≤ n && n < 0xDC00

def isLowHalf (n : Nat) : Bool := 0xDC00 ≤ n && n < 0xE000

/-- A half of a pair that stands alone is replaced. -/
def charOfPoint (n : Nat) : Char :=
  if isHighHalf n || isLowHalf n then '\uFFFD' else Char.ofNat n

/-- Halves that follow each other become one character. -/
def joinPairs : List Nat → List Char
  | [] => []
  | [n] => [charOfPoint n]
  | a :: b :: rest =>
    if isHighHalf a && isLowHalf b then
      Char.ofNat (0x10000 + (a - 0xD800) * 0x400 + (b - 0xDC00)) :: joinPairs rest
    else charOfPoint a :: joinPairs (b :: rest)

/-- A string whose opening quote has been taken. -/
def readString (cs : List Char) : Except ReadError (String × List Char) :=
  match codePoints? cs with
  | some (points, rest) => .ok (String.ofList (joinPairs points), rest)
  | none => .error .malformed

def isDigit (c : Char) : Bool := '0' ≤ c && c ≤ '9'

/-- The whole part of a number: no zero before other digits. -/
def wholePart? (cs : List Char) : Option (List Char × List Char) :=
  match cs with
  | '0' :: rest => some (['0'], rest)
  | _ =>
    match cs.span isDigit with
    | ([], _) => none
    | parts => some parts

/-- A point with the digits after it; a point alone is left in the text. -/
def fractionPart (cs : List Char) : List Char × List Char :=
  match cs with
  | '.' :: rest =>
    match rest.span isDigit with
    | ([], _) => ([], cs)
    | parts => parts
  | _ => ([], cs)

def signPart (cs : List Char) : Bool × List Char :=
  match cs with
  | '-' :: rest => (true, rest)
  | '+' :: rest => (false, rest)
  | _ => (false, cs)

/-- The power of ten, if one is written; a letter alone is left in the text. -/
def exponentPart? (cs : List Char) : Option (Int × List Char) :=
  match cs with
  | c :: rest =>
    if c = 'e' ∨ c = 'E' then
      let (negative, rest) := signPart rest
      match rest.span isDigit with
      | ([], _) => none
      | (digits, rest) =>
        let size : Int := Number.ofDigits digits
        some (if negative then -size else size, rest)
    else none
  | [] => none

/-- A number after its sign. -/
def readNumber (negative : Bool) (cs : List Char) :
    Except ReadError (Json × List Char) :=
  match wholePart? cs with
  | none => .error .malformed
  | some (whole, afterWhole) =>
    let (fraction, afterFraction) := fractionPart afterWhole
    match fraction, exponentPart? afterFraction with
    | [], none =>
      if whole.length > Number.maxDigits then .error (.tooManyDigits whole.length)
      else
        let size : Int := Number.ofDigits whole
        .ok (.int (if negative then -size else size), afterWhole)
    | _, power =>
      let (exponent, rest) := power.getD (0, afterFraction)
      let digits := Number.ofDigits (whole ++ fraction)
      .ok (.float (.ofDecimal negative digits (exponent - fraction.length)), rest)

/-- The values that are written as names, three of them numbers outside of the standard. -/
def namedValues : List (List Char × Json) := [
  ("null".toList, .null), ("true".toList, .bool true), ("false".toList, .bool false),
  ("NaN".toList, .float .nan), ("Infinity".toList, .float (.infinity false)),
  ("-Infinity".toList, .float (.infinity true))]

/-- The named value whose name the text starts with. -/
def readNamed? (cs : List Char) : Option (Json × List Char) :=
  namedValues.findSome? fun (name, value) =>
    if name.isPrefixOf cs then some (value, cs.drop name.length) else none

mutual
/-- A value at the very front of the text. The bound is on the depth of the calls. -/
def readValue : Nat → List Char → Except ReadError (Json × List Char)
  | 0, _ => .error .malformed
  | bound + 1, cs =>
    match readNamed? cs with
    | some parts => .ok parts
    | none =>
      match cs with
      | '\x22' :: rest => (readString rest).map fun (s, rest) => (.str s, rest)
      | '[' :: rest =>
        match skipBlanks rest with
        | ']' :: rest => .ok (.arr [], rest)
        | rest => (readItems bound rest).map fun (items, rest) => (.arr items, rest)
      | '\x7b' :: rest =>
        match skipBlanks rest with
        | '\x7d' :: rest => .ok (.obj [], rest)
        | rest => (readFields bound [] rest).map fun (fields, rest) => (.obj fields, rest)
      | '-' :: rest => readNumber true rest
      | _ => readNumber false cs
/-- The items of an array up to its closing bracket. -/
def readItems : Nat → List Char → Except ReadError (List Json × List Char)
  | 0, _ => .error .malformed
  | bound + 1, cs => do
    let (item, rest) ← readValue bound cs
    match skipBlanks rest with
    | ']' :: rest => return ([item], rest)
    | ',' :: rest =>
      let (items, rest) ← readItems bound (skipBlanks rest)
      return (item :: items, rest)
    | _ => .error .malformed
/-- The fields of an object up to its closing brace, after those read before. Of two with one name
the later value stands in the earlier place. -/
def readFields : Nat → List (String × Json) → List Char →
    Except ReadError (List (String × Json) × List Char)
  | 0, _, _ => .error .malformed
  | bound + 1, fields, cs =>
    match cs with
    | '\x22' :: rest => do
      let (name, rest) ← readString rest
      match skipBlanks rest with
      | ':' :: rest =>
        let (value, rest) ← readValue bound (skipBlanks rest)
        let fields := setField name value fields
        match skipBlanks rest with
        | '\x7d' :: rest => return (fields, rest)
        | ',' :: rest => readFields bound fields (skipBlanks rest)
        | _ => .error .malformed
      | _ => .error .malformed
    | _ => .error .malformed
end

/-- A whole document: one value between blanks. Two calls at most are open for each character
that was taken. -/
def read (cs : List Char) : Except ReadError Json := do
  let (value, rest) ← readValue (2 * cs.length + 2) (skipBlanks cs)
  if (skipBlanks rest).isEmpty then return value else .error .malformed

end LetLang.Json
