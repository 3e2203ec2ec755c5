/-!
# Pascal case

A name is a sequence of words: a run of lower-case letters, an upper-case letter with the
lower-case letters after it, or a run of digits.  Every other character only separates words.  In
Pascal case each word starts with a capital and nothing stands between the words.

Letters and digits are those of ASCII.
-/

namespace SchemaViews

/-- The letters and digits of a text with each word capitalised; `inWord` says whether a
lower-case letter at the front continues a word. -/
def pascalLetters (inWord : Bool) : List Char → List Char
  | [] => []
  | c :: rest =>
    if c.isLower then (if inWord then c else c.toUpper) :: pascalLetters true rest
    else if c.isUpper then c :: pascalLetters true rest
    else if c.isDigit then c :: pascalLetters false rest
    else pascalLetters false rest

def pascalCase (text : String) : String :=
  String.ofList (pascalLetters false text.toList)

example : pascalCase "Pet-Response.v2" = "PetResponseV2" := by decide

example : pascalCase "getHTTPCode" = "GetHTTPCode" := by decide

end SchemaViews
