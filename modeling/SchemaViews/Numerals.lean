import SchemaViews.Failure

/-!
# Numerals

Digits and the numbers that they denote.  The length of a decimal integer is bounded; other bases
know no bound.
-/

namespace SchemaViews
namespace Numerals

def hexValue? (c : Char) : Option Nat :=
  if '0' ≤ c ∧ c ≤ '9' then some (c.toNat - 48)
  else if 'a' ≤ c ∧ c ≤ 'f' then some (c.toNat - 87)
  else if 'A' ≤ c ∧ c ≤ 'F' then some (c.toNat - 55)
  else none

def isDigitOf (base : Nat) (c : Char) : Bool :=
  (hexValue? c).any (· < base)

def value (base : Nat) (digits : List Char) : Nat :=
  digits.foldl (fun n c => base * n + (hexValue? c).getD 0) 0

def decimal (digits : List Char) : Nat :=
  value 10 digits

def readDigits (text : List Char) : List Char × List Char :=
  text.span Char.isDigit

def integer (digits : List Char) : Except Failure Nat :=
  if digits.length ≤ digitLimit then .ok (decimal digits)
  else .error (.tooManyDigits digitLimit digits.length)

/-- An integer behind the mark of its base; the mark alone is no integer. -/
def integerOfBase (base : Nat) (digits : List Char) : Except Failure Nat :=
  if digits.isEmpty then .error (.noDigits base) else .ok (value base digits)

def signed (negative : Bool) (n : Nat) : Int :=
  if negative then -n else n

example : value 16 ['1', 'F'] = 31 := by decide

end Numerals
end SchemaViews
