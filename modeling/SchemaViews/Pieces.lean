/-!
# Pieces of a text

The pieces between the occurrences of a separator.  There is always one piece more than
separators.
-/

namespace SchemaViews

def pieces (separator : Char) : List Char → List (List Char)
  | [] => [[]]
  | c :: rest =>
    if c = separator then [] :: pieces separator rest
    else match pieces separator rest with
      | [] => [[c]]
      | piece :: more => (c :: piece) :: more

def segments (separator : Char) (text : String) : List String :=
  (pieces separator text.toList).map String.ofList

end SchemaViews
