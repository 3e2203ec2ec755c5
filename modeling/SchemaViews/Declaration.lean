import SchemaViews.Characters
import SchemaViews.Lines
import SchemaViews.StringLiteral

/-!
# Declarations of the generated module

A type is declared as an alias or as a dictionary type with a field for every key.  Fields are
written in class syntax as long as every key is an identifier and no keyword; otherwise the keys
are written as string literals in the functional syntax.  The lines of a description become a
docstring in a class and comments above everything else.
-/

namespace SchemaViews

structure FieldLine where
  key : String
  type : String
deriving DecidableEq, Repr

inductive Declaration
  | alias (name : String) (lines : List String) (type : String)
  | record (name : String) (lines : List String) (fields : List FieldLine)
deriving DecidableEq, Repr

namespace Declaration

def name : Declaration → String
  | .alias name _ _ => name
  | .record name _ _ => name

def keywords : List String :=
  ["False", "None", "True", "and", "as", "assert", "async", "await", "break", "class", "continue",
   "def", "del", "elif", "else", "except", "finally", "for", "from", "global", "if", "import",
   "in", "is", "lambda", "nonlocal", "not", "or", "pass", "raise", "return", "try", "while",
   "with", "yield"]

def isPlainKey (key : String) : Bool :=
  Characters.isIdentifier key && !keywords.contains key

/-! ## Descriptions -/

def commentLine (line : String) : String :=
  (if line = "" then "#" else "# " ++ line) ++ "\n"

def escapeDoc (line : String) : String :=
  String.ofList (line.toList.flatMap fun c => if c = '\\' ∨ c = '"' then ['\\', c] else [c])

/-- The text between the triple quotes.  Several lines are indented like the class body, and so are
the closing quotes on a line of their own. -/
def docText : List String → String
  | [] => ""
  | [line] => escapeDoc line
  | line :: rest =>
    let indented := rest.map fun line => if line = "" then "" else "    " ++ escapeDoc line
    "\n".intercalate (escapeDoc line :: indented ++ ["    "])

/-! ## Layout -/

def classText (name : String) (lines : List String) (fields : List FieldLine) : String :=
  let doc := docText lines
  let docPart :=
    if doc = "" then ""
    else "    \"\"\"" ++ doc ++ "\"\"\"\n" ++ if fields.isEmpty then "" else "\n"
  let fieldPart := String.join (fields.map fun f => "    " ++ f.key ++ ": " ++ f.type ++ "\n")
  let emptyPart := if fields.isEmpty ∧ doc = "" then "    pass\n" else ""
  "class " ++ name ++ "(TypedDict):\n" ++ docPart ++ fieldPart ++ emptyPart

def functionalText (name : String) (lines : List String) (fields : List FieldLine) : String :=
  let fieldPart := String.join (fields.map fun f =>
    "        " ++ StringLiteral.encode f.key ++ ": " ++ StringLiteral.encode f.type ++ ",\n")
  String.join (lines.map commentLine) ++ name ++ " = TypedDict(\n    \"" ++ name
    ++ "\",\n    \x7b\n" ++ fieldPart ++ "    \x7d,\n)"

def text (d : Declaration) : String :=
  Lines.dropFinalFeeds <| match d with
    | .alias name lines type =>
      String.join (lines.map commentLine) ++ "type " ++ name ++ " = " ++ type
    | .record name lines fields =>
      if fields.all fun f => isPlainKey f.key then classText name lines fields
      else functionalText name lines fields

end Declaration
end SchemaViews
