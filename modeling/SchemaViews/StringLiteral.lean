import SchemaViews.Characters

/-!
# String literals in ASCII

A literal stands between double quotes and holds visible ASCII characters only.  Quotes and
backslashes are escaped, the five common controls have letters of their own, and every other
character is written by its UTF-16 units.
-/

namespace SchemaViews
namespace StringLiteral

open Characters

def unit (n : Nat) : List Char :=
  '\\' :: 'u' :: hexDigits 4 n

def escape (c : Char) : List Char :=
  if c = '"' then ['\\', '"']
  else if c = '\\' then ['\\', '\\']
  else if c = '\n' then ['\\', 'n']
  else if c = '\r' then ['\\', 'r']
  else if c = '\t' then ['\\', 't']
  else if c = '\x08' then ['\\', 'b']
  else if c = '\x0c' then ['\\', 'f']
  else if 32 ≤ c.toNat ∧ c.toNat ≤ 126 then [c]
  else if c.toNat < 0x10000 then unit c.toNat
  else
    let offset := c.toNat - 0x10000
    unit (0xD800 + offset / 0x400) ++ unit (0xDC00 + offset % 0x400)

def body (text : List Char) : List Char :=
  text.flatMap escape

def encode (text : String) : String :=
  String.ofList ('"' :: body text.toList ++ ['"'])

example : encode "a\n\"é" = "\"a\\n\\\"\\u00e9\"" := by decide

end StringLiteral
end SchemaViews
