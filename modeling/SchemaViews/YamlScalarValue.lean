import SchemaViews.Numerals
import SchemaViews.Pieces
import SchemaViews.Value

/-!
# Values of plain YAML scalars

A plain scalar is null, a truth value, a number, a moment or a text by the way it is written.
Underscores may group the digits of a number, and groups divided by colons count sixties.
-/

namespace SchemaViews
namespace YamlText

open Numerals

def isGrouped (base : Nat) (text : List Char) : Bool :=
  text.all fun c => c == '_' || isDigitOf base c

def ungroup (text : List Char) : List Char :=
  text.filter (· != '_')

def isSixtieth : List Char → Bool
  | [d] => d.isDigit
  | [t, d] => isDigitOf 6 t && d.isDigit
  | _ => false

def splitSign : List Char → Bool × List Char
  | '-' :: rest => (true, rest)
  | '+' :: rest => (false, rest)
  | text => (false, text)

/-! ## Integers -/

def unsignedInteger? (text : List Char) : Option (Except Failure Nat) :=
  match text with
  | ['0'] => some (.ok 0)
  | '0' :: 'b' :: digits =>
    if !digits.isEmpty && isGrouped 2 digits then some (integerOfBase 2 (ungroup digits)) else none
  | '0' :: 'x' :: digits =>
    if !digits.isEmpty && isGrouped 16 digits then some (integerOfBase 16 (ungroup digits))
    else none
  | '0' :: digits => if isGrouped 8 digits then some (.ok (value 8 (ungroup digits))) else none
  | _ =>
    match pieces ':' text with
    | first :: groups =>
      if first.head?.any Char.isDigit && isGrouped 10 first && groups.all isSixtieth then
        some ((integer (ungroup first)).map fun n =>
          groups.foldl (fun n group => 60 * n + decimal group) n)
      else none
    | [] => none

def integer? (text : List Char) : Option (Except Failure Int) :=
  let (negative, digits) := splitSign text
  (unsignedInteger? digits).map fun n => n.map (signed negative)

/-! ## Doubles -/

def exponent? : List Char → Option Int
  | [] => some 0
  | e :: sign :: digits =>
    if (e == 'e' || e == 'E') && (sign == '+' || sign == '-') && !digits.isEmpty
        && digits.all Char.isDigit then
      some (signed (sign == '-') (decimal digits))
    else none
  | _ => none

def pointed? (negative : Bool) (whole fraction exponent : List Char) : Option Binary64 :=
  (exponent? exponent).map fun e =>
    Binary64.ofDecimal negative (decimal (ungroup (whole ++ fraction)))
      (e - (ungroup fraction).length)

/-- The sum of groups, the last of which counts once and every other sixty times the one behind
it. -/
def sumOfSixties (groups : List Binary64) : Binary64 :=
  (groups.foldr
    (fun group (sum, weight) =>
      (sum.plus (group.times (Binary64.ofDecimal false weight 0)), 60 * weight))
    (Binary64.ofDecimal false 0 0, 1)).1

def double? (text : List Char) : Option Binary64 :=
  let (negative, unsigned) := splitSign text
  if [".inf", ".Inf", ".INF"].contains (String.ofList unsigned) then
    some (Binary64.infinity negative)
  else if [".nan", ".NaN", ".NAN"].contains (String.ofList text) then some Binary64.notANumber
  else
    let (front, behind) := unsigned.span (· != '.')
    let (fraction, exponent) := (behind.drop 1).span fun c => c == '_' || c.isDigit
    if behind.isEmpty then none
    else if front.isEmpty then
      if text.head? == some '.' && fraction.head?.any Char.isDigit then
        pointed? false [] fraction exponent
      else none
    else match pieces ':' front with
      | first :: groups =>
        if !(first.head?.any Char.isDigit && isGrouped 10 first) then none
        else if groups.isEmpty then pointed? negative first fraction exponent
        else if groups.all isSixtieth && exponent.isEmpty then do
          let last ← pointed? false (groups.getLast?.getD []) fraction []
          let leading := (ungroup first :: groups.dropLast).map fun group =>
            Binary64.ofDecimal false (decimal group) 0
          let sum := sumOfSixties (leading ++ [last])
          return Binary64.ofMagnitude negative sum.magnitude
        else none
      | [] => none

/-! ## Dates and times -/

def number? (least most : Nat) (text : List Char) : Option Nat :=
  if least ≤ text.length && text.length ≤ most && text.all Char.isDigit then some (decimal text)
  else none

def zone? : List Char → Option Int
  | ['Z'] => some 0
  | sign :: offset =>
    if sign == '+' || sign == '-' then
      match pieces ':' offset with
      | [hours] => (number? 1 2 hours).map fun h => signed (sign == '-') (60 * h)
      | [hours, minutes] => do
        return signed (sign == '-') (60 * (← number? 1 2 hours) + (← number? 2 2 minutes))
      | _ => none
    else none
  | [] => none

def timeOfDay? (text : List Char) : Option TimeOfDay := do
  let (clock, behind) := text.span fun c => c == ':' || c.isDigit
  let (fraction, behind) := match behind with
    | '.' :: rest => rest.span Char.isDigit
    | _ => ([], behind)
  let zone ← if behind.isEmpty then some none else some <$> zone? (behind.dropWhile (· == ' '))
  let microsecond := decimal ((fraction ++ List.replicate 6 '0').take 6)
  match pieces ':' clock with
  | [hour, minute, second] =>
    return { hour := ← number? 1 2 hour, minute := ← number? 2 2 minute
             second := ← number? 2 2 second, microsecond, zone }
  | _ => none

/-- A date, or a date and a time with `T` or spaces between them.  Without a time, the month and the
day have two digits. -/
def moment? (text : List Char) : Option Moment := do
  let (date, behind) := text.span fun c => c == '-' || c.isDigit
  let time ← match behind with
    | [] => some none
    | c :: rest =>
      if c == 'T' || c == 't' then some <$> timeOfDay? rest
      else if c == ' ' then some <$> timeOfDay? (rest.dropWhile (· == ' '))
      else none
  let least := if time.isNone then 2 else 1
  match pieces '-' date with
  | [year, month, day] =>
    return { year := ← number? 4 4 year, month := ← number? least 2 month
             day := ← number? least 2 day, time }
  | _ => none

/-! ## All scalars -/

def mergeWord : String := "<<"

def valueWord : String := "="

def plainValue (text : String) : Except Failure Scalar :=
  if ["", "~", "null", "Null", "NULL"].contains text then .ok .null
  else if ["true", "True", "TRUE", "yes", "Yes", "YES", "on", "On", "ON"].contains text then
    .ok (.bool true)
  else if ["false", "False", "FALSE", "no", "No", "NO", "off", "Off", "OFF"].contains text then
    .ok (.bool false)
  else if text = mergeWord ∨ text = valueWord then .error .malformedYaml
  else match integer? text.toList with
    | some i => i.map .int
    | none => match double? text.toList with
      | some x => .ok (.float x)
      | none => match moment? text.toList with
        | some m => match m.fault? with
          | some fault => .error (.noMoment fault)
          | none => .ok (.moment m)
        | none => .ok (.str text)

example : (integer? "190:20:30".toList).map Except.toOption = some (some 685230) := by
  decide

example : double? "-.5".toList = none := by decide

end YamlText
end SchemaViews
