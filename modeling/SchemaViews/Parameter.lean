import SchemaViews.Display
import SchemaViews.Location
import SchemaViews.ValueEquality

/-!
# Parameters of a command

A command has options, given by their names, and arguments, given by their places.  An option takes
a value or is a flag.  Parameters of paths take the path of an existing file, or that of a directory
which may be missing.  From the values of its parameters a command line can be put together again.
-/

namespace SchemaViews

inductive ParameterType
  | text
  | choice (options : List String)
  | file
  | directory
deriving DecidableEq, Repr

inductive ParameterKind
  | argument
  | flag (names : List String)
  | option (names : List String)
deriving DecidableEq, Repr

structure Parameter where
  name : String
  kind : ParameterKind
  type : ParameterType := .text
  default : Value := .null
deriving DecidableEq

namespace Parameter

def names (p : Parameter) : List String :=
  match p.kind with
  | .argument => []
  | .flag names | .option names => names

def isArgument (p : Parameter) : Bool :=
  match p.kind with
  | .argument => true
  | _ => false

def takesValue (p : Parameter) : Bool :=
  match p.kind with
  | .option _ => true
  | _ => false

end Parameter

abbrev ParameterValues := OrderedMap String Value

namespace ParameterValues

def shown : Value → String
  | .str text => if '/' ∈ text.toList then (Location.ofText text).fileName else text
  | .list items => Value.quotedRow items
  | v => v.quoted

def isMissing (v : Value) : Bool :=
  v = .null ∨ v = .bool false ∨ v = .list []

/-- The words of a parameter: nothing when its value is missing or its default. -/
def words (values : ParameterValues) (p : Parameter) : List String :=
  let value := (OrderedMap.find? values p.name).getD .null
  if isMissing value then []
  else match p.kind with
    | .argument => [shown value]
    | .flag names =>
      if value.same p.default then [] else names.take 1
    | .option names =>
      if value.same p.default then [] else names.take 1 ++ [shown value]

def commandLine (command : String) (params : List Parameter) (values : ParameterValues) :
    String :=
  let (arguments, options) := params.partition Parameter.isArgument
  " ".intercalate (command :: (arguments ++ options).flatMap values.words)

end ParameterValues
end SchemaViews
