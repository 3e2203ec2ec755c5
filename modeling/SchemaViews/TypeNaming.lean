import SchemaViews.Characters
import SchemaViews.PascalCase
import SchemaViews.Pieces

/-!
# Names of generated types

A schema gives its type its name in Pascal case, or unchanged when no letter or digit is in it; an
underscore keeps a digit from coming first.  Types that no schema names are given fresh names: a
hint, then `Object` behind the hint, then numbers from two on behind that.
-/

namespace SchemaViews
namespace TypeNaming

def pascalOr (fallback name : String) : String :=
  let pascal := pascalCase name
  if pascal = "" then fallback else pascal

def startsWithDigit (name : String) : Bool :=
  name.toList.head?.any Characters.isDigit

def typeName (schema : String) : String :=
  let name := pascalOr schema schema
  if startsWithDigit name then "_" ++ name else name

def moduleFile (module : String) : String :=
  ((segments '.' module).getLast?.getD "") ++ ".py"

/-! ## Fresh names -/

def candidate (hint : String) : Nat → String
  | 0 => hint
  | 1 => hint ++ "Object"
  | n + 2 => hint ++ "Object" ++ toString (n + 2)

def firstUnused {α : Type} [DecidableEq α] (candidate : Nat → α) (used : List α) :
    (tries number : Nat) → α
  | 0, number => candidate number
  | tries + 1, number =>
    if candidate number ∈ used then firstUnused candidate used tries (number + 1)
    else candidate number

/-- Among the first candidates, one more than there are used names, one is unused. -/
def freshName (used : List String) (hint : String) : String :=
  firstUnused (candidate hint) used used.length 0

example : typeName "2fa" = "_2Fa" := by decide

example : freshName ["Pet", "PetObject"] "Pet" = "PetObject2" := by decide

end TypeNaming
end SchemaViews
