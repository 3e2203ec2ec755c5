/-!
# Characters and their places

What a character of a YAML text means depends on where it stands, so every character carries its
index, its line and its column.  Four characters break lines.
-/

namespace SchemaViews
namespace YamlText

structure Placed where
  char : Char
  index : Nat
  line : Nat
  column : Nat
deriving Repr

def isBreak (c : Char) : Bool :=
  c == '\n' || c == '\x85' || c == '\u2028' || c == '\u2029'

def breakText (c : Char) : Char :=
  if c == '\x85' then '\n' else c

def isSpace (c : Char) : Bool :=
  c == ' ' || c == '\t'

def isAllowed (c : Char) : Bool :=
  c == '\t' || c == '\n' || c == '\x85' || ' ' ≤ c && c ≤ '~'
    || 0xA0 ≤ c.toNat && c.toNat != 0xFFFE && c.toNat != 0xFFFF

/-- Places the characters of a text.  A byte order mark takes no column. -/
def place (index line column : Nat) : List Char → List Placed
  | [] => []
  | c :: rest =>
    let here : Placed := ⟨c, index, line, column⟩
    if isBreak c then here :: place (index + 1) (line + 1) 0 rest
    else here :: place (index + 1) line (if c == '\ufeff' then column else column + 1) rest

def endsWord : List Placed → Bool
  | [] => true
  | c :: _ => isSpace c.char || isBreak c.char

def atMark (mark : Char) : List Placed → Bool
  | a :: b :: c :: rest =>
    a.char == mark && b.char == mark && c.char == mark && a.column == 0 && endsWord rest
  | _ => false

def atDocumentMark (text : List Placed) : Bool :=
  atMark '-' text || atMark '.' text

def skipGaps (comment crossed : Bool) : List Placed → Bool × List Placed
  | [] => (crossed, [])
  | c :: rest =>
    if isBreak c.char then skipGaps false true rest
    else if comment || c.char == ' ' then skipGaps comment crossed rest
    else if c.char == '#' then skipGaps true crossed rest
    else (crossed, c :: rest)

end YamlText
end SchemaViews
