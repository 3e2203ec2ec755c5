import SchemaViews.Pieces

/-!
# Locations of files

A location is a path by its names.  Empty names and single dots are left out when it is read from a
text; double dots are names like any other.  A location is absolute when it has a root, which is
one slash, or two if the text starts with exactly two.
-/

namespace SchemaViews

structure Location where
  root : String
  names : List String
deriving DecidableEq

namespace Location

def rootOf : List Char → String
  | '/' :: '/' :: '/' :: _ => "/"
  | '/' :: '/' :: _ => "//"
  | '/' :: _ => "/"
  | _ => ""

def ofText (text : String) : Location where
  root := rootOf text.toList
  names := (segments '/' text).filter fun name => name ≠ "" ∧ name ≠ "."

def text (l : Location) : String :=
  if l.root = "" ∧ l.names = [] then "." else l.root ++ "/".intercalate l.names

def fileName (l : Location) : String :=
  l.names.getLast?.getD ""

def parent (l : Location) : Location :=
  { l with names := l.names.dropLast }

/-- The part of the file name from its last dot on, unless that dot is the first or the last
character. -/
def suffix (l : Location) : String :=
  match (pieces '.' l.fileName.toList).reverse with
  | ending :: before =>
    if ending = [] ∨ before = [] ∨ before = [[]] then "" else String.ofList ('.' :: ending)
  | [] => ""

def join (directory : Location) (path : Location) : Location :=
  if path.root = "" then { directory with names := directory.names ++ path.names } else path

example : (ofText "./a//b/").text = "a/b" := by decide

example : (ofText "dir.d/.hidden").suffix = "" := by decide

end Location
end SchemaViews
