/-!
# Double precision numbers by their bits

A number is its 64 bits: a sign, eleven exponent bits and a fraction of 52 bits.  Finite numbers
are read as `significand * 2 ^ scale`, and every positive rational has a nearest number, found in
exact arithmetic with ties going to the even significand.
-/

namespace SchemaViews

def twoTo (exponent : Nat) : Nat :=
  Nat.pow 2 exponent

def tenTo (exponent : Nat) : Nat :=
  Nat.pow 10 exponent

structure Binary64 where
  bits : UInt64
deriving DecidableEq, Repr

namespace Binary64

def isNegative (x : Binary64) : Bool :=
  x.bits.toNat / twoTo 63 == 1

def magnitude (x : Binary64) : Nat :=
  x.bits.toNat % twoTo 63

def exponentField (x : Binary64) : Nat :=
  x.magnitude / twoTo 52

def fraction (x : Binary64) : Nat :=
  x.magnitude % twoTo 52

def infiniteMagnitude : Nat :=
  2047 * twoTo 52

def isFinite (x : Binary64) : Bool :=
  x.magnitude < infiniteMagnitude

def isInfinite (x : Binary64) : Bool :=
  x.magnitude == infiniteMagnitude

def isNaN (x : Binary64) : Bool :=
  infiniteMagnitude < x.magnitude

def significand (x : Binary64) : Nat :=
  if x.exponentField = 0 then x.fraction else twoTo 52 + x.fraction

def scale (x : Binary64) : Int :=
  if x.exponentField = 0 then -1074 else (x.exponentField : Int) - 1075

def ofMagnitude (negative : Bool) (magnitude : Nat) : Binary64 :=
  ⟨UInt64.ofNat (magnitude + if negative then twoTo 63 else 0)⟩

def divNearest (num den : Nat) : Nat :=
  let quotient := num / den
  let twice := 2 * (num % den)
  if twice < den then quotient
  else if den < twice then quotient + 1
  else quotient + quotient % 2

def reaches (num den : Nat) (exponent : Int) : Bool :=
  den * twoTo exponent.toNat ≤ num * twoTo (-exponent).toNat

/-- The magnitude nearest to `num / den`: 53 bits are kept where the exponent allows it.  A carry
out of the fraction moves into the exponent field by itself. -/
def nearestMagnitude (num den : Nat) : Nat :=
  if num = 0 then 0
  else
    let guess := (num.log2 : Int) - den.log2
    let exponent := if reaches num den guess then guess else guess - 1
    let scale := max (exponent - 52) (-1074)
    let significand := divNearest (num * twoTo (-scale).toNat) (den * twoTo scale.toNat)
    min ((scale + 1074).toNat * twoTo 52 + significand) infiniteMagnitude

/-- The number nearest to `digits * 10 ^ exponent`.  Far outside the range of the format the answer
is known without computing the power. -/
def ofDecimal (negative : Bool) (digits : Nat) (exponent : Int) : Binary64 :=
  let places : Int := (Nat.toDigits 10 digits).length
  if digits = 0 ∨ places + exponent < -400 then ofMagnitude negative 0
  else if 400 < places + exponent then ofMagnitude negative infiniteMagnitude
  else
    ofMagnitude negative
      (nearestMagnitude (digits * tenTo exponent.toNat) (tenTo (-exponent).toNat))

def infinity (negative : Bool) : Binary64 :=
  ofMagnitude negative infiniteMagnitude

def notANumber : Binary64 :=
  ⟨0x7ff8000000000000⟩

/-! ## Sums and products of numbers without a sign -/

def units (x : Binary64) : Nat :=
  x.significand * twoTo (x.scale + 1074).toNat

def plus (x y : Binary64) : Binary64 :=
  if x.isFinite && y.isFinite then
    ofMagnitude false (nearestMagnitude (x.units + y.units) (twoTo 1074))
  else infinity false

def times (x y : Binary64) : Binary64 :=
  if x.isFinite && y.isFinite then
    ofMagnitude false (nearestMagnitude (x.units * y.units) (twoTo 2148))
  else infinity false

/-! ## Comparisons -/

def toInt? (x : Binary64) : Option Int :=
  if !x.isFinite then none
  else
    let num := x.significand * twoTo x.scale.toNat
    let den := twoTo (-x.scale).toNat
    if num % den = 0 then
      some (if x.isNegative then -(num / den : Nat) else (num / den : Nat))
    else none

example : ofDecimal false 1 0 = ⟨0x3ff0000000000000⟩ := by decide

example : ofDecimal true 5 (-324) = ⟨0x8000000000000001⟩ := by decide +kernel

example : (ofDecimal false 25 (-1)).toInt? = none := by decide

end Binary64
end SchemaViews
