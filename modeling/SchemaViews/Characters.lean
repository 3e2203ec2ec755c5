import SchemaViews.DigitTable
import SchemaViews.IdentifierTable
import SchemaViews.PrintableTable

/-!
# Classes of characters

Blanks, line ends, digits, identifier characters and visible characters.  Inside ASCII every class
is spelled out; outside it is read off the tables of code point ranges.
-/

namespace SchemaViews
namespace Characters

def within (ranges : List (Nat × Nat)) (c : Char) : Bool :=
  ranges.any fun range => range.1 ≤ c.toNat && c.toNat ≤ range.2

def blanks : List (Nat × Nat) :=
  [(9, 13), (28, 32), (133, 133), (160, 160), (5760, 5760), (8192, 8202), (8232, 8233),
   (8239, 8239), (8287, 8287), (12288, 12288)]

def isBlank (c : Char) : Bool :=
  within blanks c

/-- The characters that end a line; a carriage return takes a following line feed with it. -/
def lineEnds : List (Nat × Nat) :=
  [(10, 13), (28, 30), (133, 133), (8232, 8233)]

def isLineEnd (c : Char) : Bool :=
  within lineEnds c

def isDigit (c : Char) : Bool :=
  c.isDigit || within foreignDigits c

def startsIdentifier (c : Char) : Bool :=
  c.isAlpha || c == '_' || within foreignLetters c

def continuesIdentifier (c : Char) : Bool :=
  startsIdentifier c || c.isDigit || within foreignMarks c

def isVisible (c : Char) : Bool :=
  32 ≤ c.toNat && c.toNat ≤ 126 || 126 < c.toNat && !within invisible c

def isIdentifier (text : String) : Bool :=
  match text.toList with
  | [] => false
  | c :: rest => startsIdentifier c && rest.all continuesIdentifier

def hexDigits : (width n : Nat) → List Char
  | 0, _ => []
  | width + 1, n => hexDigits width (n / 16) ++ [Nat.digitChar (n % 16)]

theorem isBlank_of_isLineEnd {c : Char} (h : isLineEnd c = true) : isBlank c = true := by
  simp only [isLineEnd, isBlank, within, lineEnds, blanks, List.any_cons, List.any_nil,
    Bool.or_false, Bool.or_eq_true, Bool.and_eq_true, decide_eq_true_eq] at *
  omega

end Characters
end SchemaViews
