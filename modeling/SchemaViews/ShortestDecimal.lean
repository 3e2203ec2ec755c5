import SchemaViews.Binary64

/-!
# The shortest decimal of a double

Every finite number has an interval of reals that round to it; its ends belong to it when the
significand is even.  The fewest decimal digits that lie in the interval are written, and of those
the ones nearest to the number.  Exponents below -4 and from 16 on are written out, and a number
without fractional digits keeps a zero behind its point.
-/

namespace SchemaViews
namespace ShortestDecimal

/-- The reals that round to a positive number, in units of `2 ^ unit`, where the unit is a quarter
of the distance to the next greater number. -/
structure Interval where
  low : Nat
  value : Nat
  high : Nat
  unit : Int
  closed : Bool

def Interval.of (x : Binary64) : Interval :=
  let m := x.significand
  { low := if m = twoTo 52 ∧ -1074 < x.scale then 4 * m - 1 else 4 * m - 2
    value := 4 * m
    high := 4 * m + 2
    unit := x.scale - 2
    closed := m % 2 = 0 }

def Interval.contains (i : Interval) (num den : Nat) : Bool :=
  if i.closed then i.low * den ≤ num && num ≤ i.high * den
  else i.low * den < num && num < i.high * den

structure Decimal where
  digits : Nat
  exponent : Int

def leadingPoint (num den : Nat) : Int :=
  let guess : Int := (Nat.toDigits 10 num).length - (Nat.toDigits 10 den).length
  if den * tenTo guess.toNat ≤ num * tenTo (-guess).toNat then guess + 1 else guess

/-- On the grid of decimals with the given exponent, the neighbour of the value that lies in the
interval; the nearer one when both do, and the even one of a tie. -/
def onGrid? (i : Interval) (exponent : Int) : Option Decimal :=
  -- one unit of the interval is `scaleUp / scaleDown` grid steps
  let scaleUp := twoTo i.unit.toNat * tenTo (-exponent).toNat
  let scaleDown := twoTo (-i.unit).toNat * tenTo exponent.toNat
  let below := i.value * scaleUp / scaleDown
  let twiceRest := 2 * (i.value * scaleUp % scaleDown)
  let fitsBelow := i.contains (below * scaleDown) scaleUp
  let fitsAbove := i.contains ((below + 1) * scaleDown) scaleUp
  let preferBelow := twiceRest < scaleDown || twiceRest == scaleDown && below % 2 == 0
  if fitsBelow && (preferBelow || !fitsAbove) then some ⟨below, exponent⟩
  else if fitsAbove then some ⟨below + 1, exponent⟩
  else none

def shortest (x : Binary64) : Decimal :=
  let i := Interval.of x
  let point := leadingPoint (i.value * twoTo i.unit.toNat) (twoTo (-i.unit).toNat)
  ((List.range 17).findSome? fun n => onGrid? i (point - ((n + 1 : Nat) : Int))).getD ⟨i.value, 0⟩

def exponentText (exponent : Int) : String :=
  let digits := toString exponent.natAbs
  (if exponent < 0 then "e-" else "e+") ++ (if digits.length < 2 then "0" ++ digits else digits)

def layout (digits : List Char) (point : Int) : String :=
  if point < -3 ∨ 16 < point then
    let mantissa := match digits with
      | [] => []
      | [d] => [d]
      | d :: rest => d :: '.' :: rest
    String.ofList mantissa ++ exponentText (point - 1)
  else if point ≤ 0 then
    String.ofList ('0' :: '.' :: List.replicate (-point).toNat '0' ++ digits)
  else
    let whole := digits.take point.toNat
    let padding := List.replicate (point.toNat - digits.length) '0'
    let fraction := digits.drop point.toNat
    String.ofList (whole ++ padding ++ '.' :: if fraction.isEmpty then ['0'] else fraction)

def write (x : Binary64) : String :=
  if x.isNaN then "nan"
  else
    let sign := if x.isNegative then "-" else ""
    if x.isInfinite then sign ++ "inf"
    else if x.magnitude = 0 then sign ++ "0.0"
    else
      let decimal := shortest x
      let digits := Nat.toDigits 10 decimal.digits
      let significant := (digits.reverse.dropWhile (· == '0')).reverse
      sign ++ layout significant (digits.length + decimal.exponent)

example : write (Binary64.ofDecimal false 1 (-7)) = "1e-07" := by decide

example : write (Binary64.ofDecimal true 0 0) = "-0.0" := by decide

example : write (Binary64.ofDecimal false 5 (-324)) = "5e-324" := by decide +kernel

end ShortestDecimal
end SchemaViews
