import SchemaViews.Characters

/-!
# Lines of text

Trimming, splitting at line ends, and the lines of a list of descriptions.
-/

namespace SchemaViews
namespace Lines

open Characters

def trimLeft (text : List Char) : List Char :=
  text.dropWhile isBlank

def trimRight (text : List Char) : List Char :=
  (text.reverse.dropWhile isBlank).reverse

def trim (text : List Char) : List Char :=
  trimRight (trimLeft text)

/-- The text between line ends.  A line end closes a line, so none is opened behind the last one;
a carriage return and the line feed after it are one line end. -/
def split : List Char → List (List Char)
  | [] => []
  | '\r' :: '\n' :: rest => [] :: split rest
  | c :: rest =>
    if isLineEnd c then [] :: split rest
    else match split rest with
      | [] => [[c]]
      | line :: lines => (c :: line) :: lines

def paragraph (text : String) : List String :=
  (split (trim text.toList)).map fun line => String.ofList (trimRight line)

def ofDescriptions (descriptions : List String) : List String :=
  descriptions.foldl
    (fun lines text => (if lines.isEmpty then [] else lines ++ [""]) ++ paragraph text) []

def isBlankText (text : String) : Bool :=
  text.toList.all isBlank

def unifyEnds (text : String) : String :=
  String.ofList (unify text.toList)
where
  unify : List Char → List Char
    | [] => []
    | '\r' :: '\n' :: rest => '\n' :: unify rest
    | '\r' :: rest => '\n' :: unify rest
    | c :: rest => c :: unify rest

def dropFinalFeeds (text : String) : String :=
  String.ofList (text.toList.reverse.dropWhile (· == '\n')).reverse

end Lines
end SchemaViews
