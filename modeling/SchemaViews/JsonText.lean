import SchemaViews.Numerals

/-!
# Reading JSON text

Blanks are the four of the format.  Numbers with a point or an exponent are doubles, all others
integers; `NaN`, `Infinity` and `-Infinity` are numbers as well.  Of several members with one name
the last value counts, at the place of the first.  The first fault in the text is the one reported.
-/

namespace SchemaViews
namespace JsonText

open Numerals

def malformed {α : Type} : Except Failure α :=
  .error .malformedJson

def skipBlanks (text : List Char) : List Char :=
  text.dropWhile fun c => c == ' ' || c == '\t' || c == '\n' || c == '\r'

def unit? (a b c d : Char) : Option Nat :=
  if [a, b, c, d].all (isDigitOf 16) then some (value 16 [a, b, c, d]) else none

def isHighUnit (n : Nat) : Bool :=
  0xD800 ≤ n && n < 0xDC00

def isLowUnit (n : Nat) : Bool :=
  0xDC00 ≤ n && n < 0xE000

def shortEscape? : Char → Option Char
  | '"' => some '"'
  | '\\' => some '\\'
  | '/' => some '/'
  | 'b' => some '\x08'
  | 'f' => some '\x0c'
  | 'n' => some '\n'
  | 'r' => some '\r'
  | 't' => some '\t'
  | _ => none

/-- The rest of a string behind its opening quote; `read` holds what was read, last character
first.  Control characters must be escaped, and a surrogate needs its partner. -/
def readString (read : List Char) : List Char → Except Failure (String × List Char)
  | [] => malformed
  | '"' :: rest => .ok (String.ofList read.reverse, rest)
  | '\\' :: 'u' :: a :: b :: c :: d :: rest =>
    match unit? a b c d with
    | none => malformed
    | some n =>
      if isHighUnit n then
        match rest with
        | '\\' :: 'u' :: a' :: b' :: c' :: d' :: rest' =>
          match unit? a' b' c' d' with
          | none => malformed
          | some m =>
            if isLowUnit m then
              readString
                (Char.ofNat (0x10000 + (n - 0xD800) * 0x400 + (m - 0xDC00)) :: read) rest'
            else malformed
        | _ => malformed
      else if isLowUnit n then malformed
      else readString (Char.ofNat n :: read) rest
  | '\\' :: c :: rest =>
    match shortEscape? c with
    | some e => readString (e :: read) rest
    | none => malformed
  | c :: rest => if c.toNat < 32 then malformed else readString (c :: read) rest

def readFraction : List Char → List Char × List Char
  | '.' :: rest =>
    let (digits, rest') := readDigits rest
    if digits.isEmpty then ([], '.' :: rest) else (digits, rest')
  | text => ([], text)

def readExponent (text : List Char) : Option Int × List Char :=
  match text with
  | e :: rest =>
    if e == 'e' || e == 'E' then
      let (negative, digitsText) := match rest with
        | '-' :: r => (true, r)
        | '+' :: r => (false, r)
        | r => (false, r)
      let (digits, rest') := readDigits digitsText
      if digits.isEmpty then (none, text) else (some (signed negative (decimal digits)), rest')
    else (none, text)
  | [] => (none, [])

def readUnsigned (negative : Bool) (text : List Char) : Except Failure (Value × List Char) := do
  let (whole, rest) := match text with
    | '0' :: r => (['0'], r)
    | _ => readDigits text
  if whole.isEmpty then malformed
  else
    let (fraction, rest) := readFraction rest
    let (exponent, rest) := readExponent rest
    if fraction.isEmpty && exponent.isNone then
      return (.int (signed negative (← integer whole)), rest)
    else
      let scale := exponent.getD 0 - fraction.length
      return (.float (Binary64.ofDecimal negative (decimal (whole ++ fraction)) scale), rest)

def dropWord? (word : String) (text : List Char) : Option (List Char) :=
  if word.toList.isPrefixOf text then some (text.drop word.length) else none

def readWord? (text : List Char) : Option (Value × List Char) :=
  [("null", Value.null), ("true", .bool true), ("false", .bool false),
    ("NaN", .float Binary64.notANumber), ("Infinity", .float (Binary64.infinity false)),
    ("-Infinity", .float (Binary64.infinity true))].findSome? fun (word, value) =>
      (dropWord? word text).map fun rest => (value, rest)

mutual

/-- A value at the front of a text without leading blanks.  The two calls that an opening bracket
leads to are paid for by the bracket and its partner, and every further item by its comma, so the
length of the text is fuel enough. -/
def readValue : (fuel : Nat) → List Char → Except Failure (Value × List Char)
  | 0, _ => malformed
  | fuel + 1, text =>
    match text with
    | '"' :: rest => do
      let (s, rest) ← readString [] rest
      return (.str s, rest)
    | '[' :: rest =>
      match skipBlanks rest with
      | ']' :: rest => .ok (.list [], rest)
      | rest => do
        let (items, rest) ← readItems fuel rest
        return (.list items, rest)
    | '\x7b' :: rest =>
      match skipBlanks rest with
      | '\x7d' :: rest => .ok (.map [], rest)
      | rest => do
        let (members, rest) ← readMembers fuel rest
        return (.map (OrderedMap.ofEntries members), rest)
    | _ =>
      match readWord? text with
      | some reading => .ok reading
      | none =>
        match text with
        | '-' :: rest => readUnsigned true rest
        | _ => readUnsigned false text

def readItems : (fuel : Nat) → List Char → Except Failure (List Value × List Char)
  | 0, _ => malformed
  | fuel + 1, text => do
    let (item, rest) ← readValue fuel text
    match skipBlanks rest with
    | ']' :: rest => return ([item], rest)
    | ',' :: rest =>
      let (items, rest) ← readItems fuel (skipBlanks rest)
      return (item :: items, rest)
    | _ => malformed

def readMembers : (fuel : Nat) → List Char → Except Failure (List (Scalar × Value) × List Char)
  | 0, _ => malformed
  | fuel + 1, text =>
    match text with
    | '"' :: rest => do
      let (name, rest) ← readString [] rest
      match skipBlanks rest with
      | ':' :: rest =>
        let (value, rest) ← readValue fuel (skipBlanks rest)
        match skipBlanks rest with
        | '\x7d' :: rest => return ([(.str name, value)], rest)
        | ',' :: rest =>
          let (members, rest) ← readMembers fuel (skipBlanks rest)
          return ((.str name, value) :: members, rest)
        | _ => malformed
      | _ => malformed
    | _ => malformed

end

def read (text : String) : Except Failure Value := do
  let characters := skipBlanks text.toList
  let (value, rest) ← readValue (characters.length + 1) characters
  if (skipBlanks rest).isEmpty then return value else malformed

example : (read "\x7b\"a\": [1, -0, 1E2], \"a\": null\x7d").toOption
    = some (.map [(.str "a", .null)]) := by
  decide +kernel

example : (read "[5.]").toOption = none := by decide +kernel

end JsonText
end SchemaViews
