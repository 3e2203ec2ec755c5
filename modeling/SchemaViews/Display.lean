import SchemaViews.Characters
import SchemaViews.ShortestDecimal
import SchemaViews.Value

/-!
# How values are shown

Messages quote values in full: texts between quotes with everything invisible escaped, lists in
brackets, mappings in braces with their entries in order.  A text on its own is shown as it is.
Nothing that holds an integer of too many digits can be written.
-/

namespace SchemaViews
namespace Display

open Characters

def quoteFor (text : List Char) : Char :=
  if '\'' ∈ text ∧ '"' ∉ text then '"' else '\''

def escape (quote c : Char) : List Char :=
  if c = quote ∨ c = '\\' then ['\\', c]
  else if c = '\n' then ['\\', 'n']
  else if c = '\r' then ['\\', 'r']
  else if c = '\t' then ['\\', 't']
  else if isVisible c then [c]
  else if c.toNat < 0x100 then '\\' :: 'x' :: hexDigits 2 c.toNat
  else if c.toNat < 0x10000 then '\\' :: 'u' :: hexDigits 4 c.toNat
  else '\\' :: 'U' :: hexDigits 8 c.toNat

def quoteText (text : String) : String :=
  let quote := quoteFor text.toList
  String.ofList (quote :: text.toList.flatMap (escape quote) ++ [quote])

end Display

namespace Scalar

open Display

def quoted : Scalar → String
  | .null => "None"
  | .bool true => "True"
  | .bool false => "False"
  | .int i => toString i
  | .float x => ShortestDecimal.write x
  | .str s => quoteText s
  | .moment m => m.quoted
  | .ref target => s!"SchemaRef(kind={quoteText target.kind}, name={quoteText target.name})"

end Scalar

namespace Value

mutual

def quoted : Value → String
  | .scalar s => s.quoted
  | .list items => "[" ++ ", ".intercalate (quotedItems items) ++ "]"
  | .map entries => "\x7b" ++ ", ".intercalate (quotedEntries entries) ++ "\x7d"

def quotedItems : List Value → List String
  | [] => []
  | v :: rest => v.quoted :: quotedItems rest

def quotedEntries : List (Scalar × Value) → List String
  | [] => []
  | (k, v) :: rest => (k.quoted ++ ": " ++ v.quoted) :: quotedEntries rest

end

def quotedRow : List Value → String
  | [v] => "(" ++ v.quoted ++ ",)"
  | items => "(" ++ ", ".intercalate (quotedItems items) ++ ")"

/-- A text is shown bare, a moment in its short form, anything else as it is quoted. -/
def shown : Value → String
  | .str s => s
  | .moment m => m.shown
  | v => v.quoted

end Value

example : (Value.map [(.str "k", .list [.null, .str "it's"])]).quoted
    = "\x7b'k': [None, \"it's\"]\x7d" := by decide

/-! ## Values that can be written

A decimal integer is neither read nor written with more digits than the limit allows.
-/

namespace Numerals

def digitLimit : Nat := 4300

def isShort (i : Int) : Bool :=
  i.natAbs < tenTo digitLimit

end Numerals

def Scalar.isWritable : Scalar → Bool
  | .int i => Numerals.isShort i
  | _ => true

@[simp] theorem Scalar.isWritable_str (s : String) : (Scalar.str s).isWritable = true := rfl

namespace Value

mutual

def isWritable : Value → Bool
  | .scalar s => s.isWritable
  | .list items => itemsWritable items
  | .map entries => entriesWritable entries

def itemsWritable : List Value → Bool
  | [] => true
  | v :: rest => v.isWritable && itemsWritable rest

def entriesWritable : List (Scalar × Value) → Bool
  | [] => true
  | (k, v) :: rest => k.isWritable && v.isWritable && entriesWritable rest

end

end Value

end SchemaViews
