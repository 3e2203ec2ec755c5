import SchemaViews.OrderedMap

/-!
# Trees of files

A tree says what stands at which place; a place is the list of names that lead to it.  The place
without names is the top directory and always there.
-/

namespace SchemaViews

inductive Node
  | directory
  | file (text : String)
deriving DecidableEq, Repr

abbrev FileTree := OrderedMap (List String) Node

namespace FileTree

def node? (tree : FileTree) (place : List String) : Option Node :=
  if place = [] then some .directory else OrderedMap.find? tree place

def step (place : List String) (name : String) : List String :=
  if name = ".." then place.dropLast else place ++ [name]

def placeOf (names : List String) : List String :=
  names.foldl step []

/-- What a path leads to; every place on the way has to be a directory. -/
def lookup (tree : FileTree) (place : List String) : (names : List String) → Option Node
  | [] => tree.node? place
  | name :: rest =>
    match tree.node? place with
    | some .directory => lookup tree (step place name) rest
    | _ => none

/-- A name ends where its null character is. -/
def isName (name : String) : Bool :=
  '\x00' ∉ name.toList

def occupied (tree : FileTree) (names : List String) : Bool :=
  names.all isName && (tree.lookup [] names).isSome

def text? (tree : FileTree) (names : List String) : Option String :=
  match tree.lookup [] names with
  | some (.file text) => some text
  | _ => none

end FileTree
end SchemaViews
