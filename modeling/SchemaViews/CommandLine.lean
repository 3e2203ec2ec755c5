import SchemaViews.Parameter

/-!
# Reading command lines

A word that starts with a dash names options; all other words are arguments.  Options stand
anywhere, and behind `--` there are none.
-/

namespace SchemaViews
namespace ParameterValues

def optionNamed? (params : List Parameter) (name : String) : Option Parameter :=
  params.find? fun p => name ∈ p.names

def splitName (word : List Char) : String × Option String :=
  match word.dropWhile (· != '=') with
  | [] => (String.ofList word, none)
  | _ :: value => (String.ofList (word.takeWhile (· != '=')), some (String.ofList value))

inductive Reading
  | values (values : List (String × Value))
  | pending (values : List (String × Value)) (name : String)
deriving DecidableEq

/-- A dash and the letters of options.  Behind an option that takes a value the letters are that
value. -/
def readLetters (params : List Parameter) (values : List (String × Value)) :
    List Char → Option Reading
  | [] => some (.values values)
  | c :: rest =>
    match optionNamed? params (String.ofList ['-', c]) with
    | none => none
    | some p =>
      if p.takesValue then
        if rest.isEmpty then some (.pending values p.name)
        else some (.values (values ++ [(p.name, .str (String.ofList rest))]))
      else readLetters params (values ++ [(p.name, .bool true)]) rest

def readOption (params : List Parameter) (word : List Char) : Option Reading :=
  let (name, given) := splitName word
  match if 2 < name.length then optionNamed? params name else none with
  | some p =>
    match p.takesValue, given with
    | true, some value => some (.values [(p.name, .str value)])
    | true, none => some (.pending [] p.name)
    | false, none => some (.values [(p.name, .bool true)])
    | false, some _ => none
  | none =>
    if "--".toList.isPrefixOf word then none else readLetters params [] (word.drop 1)

def isOption (word : List Char) : Bool :=
  word.head? == some '-' && 1 < word.length

/-- The options and the positional words of a command line.  All words behind `--` are
positional. -/
def readWords (params : List Parameter) :
    List String → Option (List (String × Value) × List String)
  | [] => some ([], [])
  | word :: rest =>
    if word = "--" then some ([], rest)
    else if isOption word.toList then
      match readOption params word.toList with
      | none => none
      | some (.values values) =>
        (readWords params rest).map fun (more, words) => (values ++ more, words)
      | some (.pending values name) =>
        match rest with
        | [] => none
        | value :: rest =>
          (readWords params rest).map fun (more, words) =>
            (values ++ (name, .str value) :: more, words)
    else (readWords params rest).map fun (more, words) => (more, word :: words)

def ofWords (params : List Parameter) (words : List String) : Option ParameterValues :=
  match readWords params words with
  | none => none
  | some (given, words) =>
    let arguments := params.filter Parameter.isArgument
    if words.length = arguments.length then
      let defaults := params.map fun p => (p.name, p.default)
      let positional := (arguments.zip words).map fun (p, word) => (p.name, Value.str word)
      some (OrderedMap.ofEntries (defaults ++ given ++ positional))
    else none

end ParameterValues
end SchemaViews
