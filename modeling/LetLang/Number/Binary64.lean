namespace LetLang

/-- A binary floating-point number with 64 bits, held as its bit pattern. A finite value is an
integer multiple of 2^-1074, so sizes are compared as naturals and nothing is computed in rounded
arithmetic. -/
structure Binary64 where
  bits : UInt64
deriving DecidableEq, Inhabited

namespace Binary64

/-- The bit that is implied in front of a normal fraction, 2^52. -/
def hiddenBit : Nat := 4503599627370496

/-- The bit of the sign, 2^63. -/
def signBit : Nat := 9223372036854775808

/-- The units of 2^-1074 in one. -/
def unitsPerOne : Nat := Nat.pow 2 1074

def isNegative (x : Binary64) : Bool := decide (signBit ≤ x.bits.toNat)

def exponentField (x : Binary64) : Nat := x.bits.toNat / hiddenBit % 2048

def fraction (x : Binary64) : Nat := x.bits.toNat % hiddenBit

def isFinite (x : Binary64) : Bool := x.exponentField != 2047

def isNaN (x : Binary64) : Bool := x.exponentField == 2047 && x.fraction != 0

/-- Below the least normal number the leading bit is not implied. -/
def significand (x : Binary64) : Nat :=
  if x.exponentField = 0 then x.fraction else hiddenBit + x.fraction

/-- The size of a finite value in units of 2^-1074. -/
def magnitude (x : Binary64) : Nat := x.significand * Nat.pow 2 (x.exponentField - 1)

/-- A finite value in units of 2^-1074. -/
def units (x : Binary64) : Int := if x.isNegative then -(x.magnitude : Int) else x.magnitude

/-- The integer part of a finite value: the fraction is cut off. -/
def truncate (x : Binary64) : Int :=
  let size : Int := (x.magnitude / unitsPerOne : Nat)
  if x.isNegative then -size else size

/-- The integer that a value is, if it is one. -/
def toInt? (x : Binary64) : Option Int :=
  if x.isFinite && x.magnitude % unitsPerOne == 0 then some x.truncate else none

def infinityBits : Nat := 2047 * hiddenBit

def infinity (negative : Bool) : Binary64 :=
  ⟨UInt64.ofNat (infinityBits + if negative then signBit else 0)⟩

def nan : Binary64 := ⟨UInt64.ofNat (infinityBits + hiddenBit / 2)⟩

/-- The nearest integer to `num / den`; a half goes to the even neighbour. -/
def roundHalfEven (num den : Nat) : Nat :=
  let quotient := num / den
  let twice := 2 * (num % den)
  if den < twice || (den == twice && quotient % 2 == 1) then quotient + 1 else quotient

/-- The pattern of a significand below 2^53 + 1 counted in units of 2^scale. A significand that
was rounded up to 2^53 carries into the exponent field. -/
def encode (significand scale : Nat) : Nat :=
  if significand < hiddenBit then significand else (scale + 1) * hiddenBit + (significand - hiddenBit)

/-- The nearest value to `num / den` with the given sign, an infinity when it is too large. The
exact quotient is rounded once. -/
def ofRatio (negative : Bool) (num den : Nat) : Binary64 :=
  let units := num * unitsPerOne
  let scale := (units / den).log2 + 1 - 53
  let pattern := min (encode (roundHalfEven units (den * Nat.pow 2 scale)) scale) infinityBits
  ⟨UInt64.ofNat (pattern + if negative then signBit else 0)⟩

/-- The nearest value to an integer, or nothing when that is infinite. -/
def ofInt? (n : Int) : Option Binary64 :=
  let x := ofRatio (decide (n < 0)) n.natAbs 1
  if x.isFinite then some x else none

/-- The nearest value to `digits * 10 ^ exponent`. The first two tests only keep the powers of
ten small: no value lies outside of 10^-330 and 10^310 but zero and the infinities. -/
def ofDecimal (negative : Bool) (digits : Nat) (exponent : Int) : Binary64 :=
  let places := exponent + (Nat.toDigits 10 digits).length
  if digits = 0 ∨ places < -330 then ofRatio negative 0 1
  else if places > 310 then infinity negative
  else ofRatio negative (digits * Nat.pow 10 exponent.toNat)
    (Nat.pow 10 (-exponent).toNat)

/-- The platform's power function. -/
def pow (x y : Binary64) : Binary64 :=
  ⟨(Float.pow (Float.ofBits x.bits) (Float.ofBits y.bits)).toBits⟩

end Binary64

end LetLang
