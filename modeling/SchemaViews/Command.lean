import SchemaViews.Compilation
import SchemaViews.OutputWriting
import SchemaViews.Parameter

/-!
# The command

One run of the command reads a document and, if one is given, a settings file, compiles the modules
of the views asked for, and writes them below the output directory.  All modules are compiled before
the first is written.  Failures of the document, of its schemas and of the output files are
reported; any other failure breaks the run.

Other programs read the command line, the document and the settings file, and format, parse and
encode the modules.  They make up the environment of a run.
-/

namespace SchemaViews

inductive CommandFailure
  | usage
  | reported (message : String)
  | broken (failure : Failure)
deriving DecidableEq

structure Desk where
  tree : FileTree
  printed : List String

abbrev Run := ExceptT CommandFailure (StateM Desk)

structure Environment where
  readValues : FileTree → List String → Option ParameterValues
  readers : Readers
  installed : Formatters
  coding : Coding String

namespace Command

def name : String := "openapi_typespec"

def parameters : List Parameter :=
  [{ name := "config", kind := .option ["--config", "-c"], type := .file },
   { name := "mode", kind := .option ["--mode", "-m"]
     type := .choice ["read", "write", "both"], default := .str "both" },
   { name := "read_module", kind := .option ["--read-module"] },
   { name := "write_module", kind := .option ["--write-module"] },
   { name := "force", kind := .flag ["--force"], default := .bool false },
   { name := "format_code", kind := .flag ["--format"], default := .bool false },
   { name := "formatter", kind := .option ["--formatter"], type := .choice ["black", "ruff"] },
   { name := "debug", kind := .flag ["--debug"], default := .bool false },
   { name := "path", kind := .argument, type := .file },
   { name := "output_dir", kind := .argument, type := .directory }]

/-! ## Values of parameters -/

def given? (values : ParameterValues) (name : String) : Option String :=
  match OrderedMap.find? values name with
  | some (.str text) => if text = "" then none else some text
  | _ => none

def isSet (values : ParameterValues) (name : String) : Bool :=
  OrderedMap.find? values name = some (.bool true)

def modes (values : ParameterValues) : Except Failure (List View) :=
  match (OrderedMap.find? values "mode").getD .null with
  | .str "both" => .ok [.read, .write]
  | mode => do return [← Session.view mode]

/-! ## Settings -/

def textAt (tree : FileTree) (path : String) : Except Failure String :=
  match tree.text? (Location.ofText path).names with
  | some text => .ok text
  | none => .error (.noFile path)

def override (values : ParameterValues) (s : Settings) : Except Failure Settings := do
  let s := match given? values "read_module" with
    | some module => { s with readModule := .str module }
    | none => s
  let s := match given? values "write_module" with
    | some module => { s with writeModule := .str module }
    | none => s
  let s ←
    if isSet values "force" then do
      let output ← Section.settings s.output
      pure { s with output := some (.record { output with mode := .force }) }
    else pure s
  let s ←
    if isSet values "format_code" then do
      let formatter ← Section.settings s.formatter
      pure { s with formatter := some (.record { formatter with enabled := .bool true }) }
    else pure s
  match given? values "formatter" with
  | some tool => do
    let formatter ← Section.settings s.formatter
    return { s with formatter := some (.record { formatter with tool := .str tool }) }
  | none => return s

def settingsFor (readers : Readers) (tree : FileTree) (values : ParameterValues) :
    Except Failure Settings := do
  let settings ← match OrderedMap.find? values "config" with
    | some (.str file) => do
      let value ← readers.json (← textAt tree file)
      Settings.ofValue value
    | _ => pure {}
  override values settings

/-- How files are written; something empty in place of the section means the usual way. -/
def outputSettings (s : Settings) : Except Failure OutputSettings :=
  match s.output with
  | some (.record output) => .ok output
  | some (.raw value) => if value.isPresent then .error .wrongShape else .ok {}
  | none => .error .wrongShape

/-! ## Running -/

def compileModules (directory : Location) (comment : String) :
    Session → List View → Except Failure (List (Location × String))
  | _, [] => .ok []
  | session, view :: views => do
    let mode := Value.str view.name
    let file ← session.fileName mode
    let (text, session) := session.generate mode comment
    let text ← text
    let rest ← compileModules directory comment session views
    return (directory.join (Location.ofText file), text) :: rest

def isReported : Failure → Bool
  | .unknownType .. | .noDocument _ | .noSchemas | .nameClash .. | .invalidCode _
  | .outputExists _ | .fileInPlaceOfDirectory _ => true
  | _ => false

def report (failure : Failure) : CommandFailure :=
  if isReported failure then
    .reported ("\n".intercalate (failure.message?.toList ++ failure.note?.toList))
  else .broken failure

def reporting (result : Except Failure α) : Except CommandFailure α :=
  result.mapError report

structure Plan where
  values : ParameterValues
  views : List View
  session : Session
  comment : String
  output : OutputSettings
  modules : List (Location × String)

/-- All that a run does before it writes.  Nothing is reported until the settings are there. -/
def plan (env : Environment) (tree : FileTree) (words : List String) :
    Except CommandFailure Plan := do
  let some values := env.readValues tree words | throw .usage
  let settings ← (settingsFor env.readers tree values).mapError CommandFailure.broken
  let views ← (modes values).mapError CommandFailure.broken
  let comment := "Generated by " ++ ParameterValues.commandLine name parameters values
  let path := (given? values "path").getD ""
  let text ← reporting (textAt tree path)
  let document ← reporting (Document.load env.readers (Location.ofText path) text).result
  let session ← reporting (Session.ofDocument document settings env.installed)
  let directory := Location.ofText ((given? values "output_dir").getD "")
  let modules ← reporting (compileModules directory comment session views)
  unless (modules.map Prod.fst).Nodup do
    throw (.reported "The read and write modules would be written to the same file")
  let output ← reporting (outputSettings settings)
  return { values, views, session, comment, output, modules }

def attempt (result : Except CommandFailure α) : Run α :=
  match result with
  | .ok a => pure a
  | .error failure => throw failure

def writeModule (coding : Coding String) (settings : OutputSettings) (file : Location)
    (text : String) : Run Unit := do
  let desk ← get
  let (result, tree) := (Writing.write coding settings file text).run desk.tree
  set { desk with tree }
  attempt (reporting result)
  modify fun desk => { desk with printed := desk.printed ++ ["Wrote " ++ file.text] }

def run (env : Environment) (words : List String) : Run Unit := do
  let plan ← attempt (plan env (← get).tree words)
  plan.modules.forM fun (file, text) => writeModule env.coding plan.output file text

end Command
end SchemaViews
