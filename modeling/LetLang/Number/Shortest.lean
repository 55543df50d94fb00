import LetLang.Number.Binary64

namespace LetLang

/-- `digits * 10 ^ exponent` -/
structure Decimal where
  digits : Nat
  exponent : Int
deriving DecidableEq

namespace Decimal

/-- The same value without trailing zeros. -/
def strip : Nat → Decimal → Decimal
  | 0, d => d
  | n + 1, d =>
    if d.digits ≠ 0 ∧ d.digits % 10 = 0 then strip n ⟨d.digits / 10, d.exponent + 1⟩ else d

def numerator (d : Decimal) : Nat := d.digits * Nat.pow 10 d.exponent.toNat

def denominator (d : Decimal) : Nat := Nat.pow 10 (-d.exponent).toNat

end Decimal

namespace Binary64

/-- The least `k` with `num / den < 10 ^ k`, for positive arguments. -/
def decimalPlaces (num den : Nat) : Int :=
  let guess : Int := (Nat.toDigits 10 num).length - (Nat.toDigits 10 den).length
  if num * Nat.pow 10 (-guess).toNat < den * Nat.pow 10 guess.toNat then guess else guess + 1

/-- Both decimals with `count` digits next to the size of `x`, the lower one first. -/
def neighbours (x : Binary64) (count : Nat) : Decimal × Decimal :=
  let exponent := decimalPlaces x.magnitude unitsPerOne - count
  let digits := x.magnitude * Nat.pow 10 (-exponent).toNat / (unitsPerOne * Nat.pow 10 exponent.toNat)
  (⟨digits, exponent⟩, ⟨digits + 1, exponent⟩)

def readsBack (x : Binary64) (d : Decimal) : Bool :=
  decide (ofRatio x.isNegative d.numerator d.denominator = x)

/-- Does the size of `x` lie nearer to the lower of its neighbours? A tie takes the even one. -/
def prefersLower (x : Binary64) (low high : Decimal) : Bool :=
  let twice := 2 * x.magnitude * low.denominator
  let sum := (low.numerator + high.numerator) * unitsPerOne
  decide (twice < sum) || (decide (twice = sum) && low.digits % 2 == 0)

def atDigits? (x : Binary64) (count : Nat) : Option Decimal :=
  let (low, high) := x.neighbours count
  match x.readsBack low, x.readsBack high with
  | true, true => some (if x.prefersLower low high then low else high)
  | true, false => some low
  | false, true => some high
  | false, false => none

/-- The decimal with the fewest digits that rounds back to the value, and of those the nearest to
it. Seventeen digits always do. -/
def shortest (x : Binary64) : Decimal :=
  if x.magnitude = 0 then ⟨0, 0⟩
  else
    let counts := (List.range 17).map (· + 1)
    ((counts.findSome? x.atDigits?).getD (x.neighbours 17).1).strip 17

def zeros (n : Nat) : List Char := List.replicate n '0'

/-- An exponent has a sign and two digits at least. -/
def exponentText (e : Int) : List Char :=
  let digits := Nat.toDigits 10 e.natAbs
  (if e < 0 then '-' else '+') :: (zeros (2 - digits.length) ++ digits)

/-- Digits with the point after the first `point` of them: written out when the point falls
within -3 and 16, otherwise with a power of ten. -/
def layout (digits : List Char) (point : Int) : List Char :=
  if -4 < point ∧ point ≤ 16 then
    if point ≤ 0 then '0' :: '.' :: (zeros (-point).toNat ++ digits)
    else if digits.length ≤ point.toNat then
      digits ++ zeros (point.toNat - digits.length) ++ ['.', '0']
    else digits.take point.toNat ++ '.' :: digits.drop point.toNat
  else
    let rest := digits.drop 1
    digits.take 1 ++ (if rest.isEmpty then [] else '.' :: rest) ++ 'e' :: exponentText (point - 1)

/-- The text of a finite value. -/
def finiteText (x : Binary64) : String :=
  let d := x.shortest
  let digits := Nat.toDigits 10 d.digits
  let size := if d.digits = 0 then ['0', '.', '0'] else layout digits (d.exponent + digits.length)
  String.ofList (if x.isNegative then '-' :: size else size)

/-- The text of any value, given the names of the two that are no numbers. -/
def textWith (infinityName nanName : String) (x : Binary64) : String :=
  if x.isFinite then x.finiteText
  else if x.isNaN then nanName
  else if x.isNegative then "-" ++ infinityName
  else infinityName

end Binary64

end LetLang
