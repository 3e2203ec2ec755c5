import SchemaViews.Command
import SchemaViews.CommandLine
import SchemaViews.JsonText
import SchemaViews.YamlText

/-!
# The standard environment

The environment in which the program is built: command lines, JSON and YAML are read here, and there
are no formatters and no parser.  YAML is read without anchors, tags and directives.
-/

namespace SchemaViews
namespace Command

/-- The location of a path as seen from the working directory, without double dots. -/
def resolvePath (home : Location) (path : String) : Location :=
  let given := Location.ofText path
  if given.root = "" then { home with names := FileTree.placeOf (home.names ++ given.names) }
  else ⟨"/", FileTree.placeOf given.names⟩

def convert (home : Location) (tree : FileTree) (p : Parameter) (v : Value) : Option Value :=
  match p.type, v with
  | .choice options, .str text => if text ∈ options then some v else none
  | .file, .str path =>
    let location := resolvePath home path
    match tree.lookup [] location.names with
    | some (.file _) => some (.str location.text)
    | _ => none
  | .directory, .str path =>
    let location := resolvePath home path
    match tree.lookup [] location.names with
    | some (.file _) => none
    | _ => some (.str location.text)
  | _, v => some v

def readValues (home : Location) (tree : FileTree) (words : List String) :
    Option ParameterValues := do
  let values ← ParameterValues.ofWords parameters words
  parameters.mapM fun p => do
    let value ← OrderedMap.find? values p.name
    return (p.name, ← convert home tree p value)

end Command

def Environment.standard (home : Location) : Environment where
  readValues := Command.readValues home
  readers := { json := JsonText.read, yaml := YamlText.read }
  installed := fun _ => none
  coding := .texts

end SchemaViews
