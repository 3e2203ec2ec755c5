import SchemaViews.StandardEnvironment

/-!
# The program

The command runs on a picture of the files: what it looks at is read beforehand, and what it changes
is carried out afterwards.  A rehearsal on the files that the command line names shows which places
the run would change, so that these can be looked at as well.
-/

namespace SchemaViews

def Command.locations (home : Location) (words : List String) : List Location :=
  match ParameterValues.ofWords Command.parameters words with
  | none => []
  | some values => Command.parameters.filterMap fun p =>
      match p.type, OrderedMap.find? values p.name with
      | .file, some (.str path) | .directory, some (.str path) =>
        some (Command.resolvePath home path)
      | _, _ => none

namespace Program

def pathOf (home : Location) (place : List String) : String :=
  Location.text ⟨home.root, place⟩

def look (home : Location) (place : List String) : IO (Option Node) := do
  try
    return some (.file (← IO.FS.readFile (pathOf home place)))
  catch
    | .noFileOrDirectory .. => return none
    | .inappropriateType .. => return some .directory
    | failure => throw failure

/-- Adds a place to a picture, with the places on the way to it. -/
def observe (home : Location) (tree : FileTree) (place : List String) : IO FileTree := do
  let mut tree := tree
  for length in List.range (place.length + 1) do
    let next := place.take length
    if tree.node? next.dropLast = some .directory ∧ (tree.node? next).isNone then
      if let some node ← look home next then
        tree := OrderedMap.insert tree next node
  return tree

def perform (home : Location) (tree : FileTree) (place : List String) : Node → IO Unit
  | .directory => IO.FS.createDir (pathOf home place)
  | .file text => do
    let temporary := pathOf home (Writing.temporaryPlace tree place)
    IO.FS.writeFile temporary text
    IO.FS.rename temporary (pathOf home place)

def explain : CommandFailure → String
  | .usage => "Usage: " ++ Command.name ++ " [OPTIONS] PATH OUTPUT_DIR"
  | .reported message => "Error: " ++ message
  | .broken failure => "Error: " ++ failure.message?.getD "the run was broken off"

def exitCode : CommandFailure → UInt32
  | .usage => 2
  | _ => 1

def run (words : List String) : IO UInt32 := do
  let home := Location.ofText (toString (← IO.currentDir))
  let named ← (Command.locations home words).foldlM
    (fun tree location => observe home tree location.names) []
  let rehearsal := ((Command.run (.standard home) words).run ⟨named, []⟩).2.tree
  let tree ← (OrderedMap.keys rehearsal).foldlM (observe home) named
  let (result, desk) := (Command.run (.standard home) words).run ⟨tree, []⟩
  for (place, node) in desk.tree do
    if tree.node? place ≠ some node then
      perform home desk.tree place node
  for line in desk.printed do
    IO.println line
  match result with
  | .ok _ => return 0
  | .error failure =>
    IO.eprintln (explain failure)
    return exitCode failure

end Program
end SchemaViews

def main (words : List String) : IO UInt32 :=
  SchemaViews.Program.run words
