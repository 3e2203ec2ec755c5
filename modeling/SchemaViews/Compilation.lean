import SchemaViews.Document
import SchemaViews.Emission
import SchemaViews.Resolution
import SchemaViews.Settings

/-!
# Compiling a document

A session compiles the component schemas of one document.  Any scalar can name a schema, but only
texts can be referred to, or declared in a module.  The context of references and the use of
descriptions are fixed when the session begins; all other settings are looked up at each
request, so that they can be changed in between.  The emission of the last module is kept, and
every module starts a new one.

Formatting is done by other programs, of which some are installed.
-/

namespace SchemaViews

abbrev Formatter := FormatterSettings → String → Except Failure String

abbrev Formatters := String → Option Formatter

structure Session where
  schemas : Entries
  context : Context
  withDescriptions : Bool
  settings : Settings
  emission : Emission
  installed : Formatters

namespace Session

def ofDocument (document : Value) (settings : Settings) (installed : Formatters) :
    Except Failure Session := do
  let schemas ← Document.components document
  let arena := Arena.ofEntries schemas
  return { schemas
           context := .uniform settings.readModule settings.writeModule arena
           withDescriptions := settings.includeDescriptions.isPresent
           settings := settings
           emission := .start (.str "")
           installed }

/-! ## Which schemas -/

def occursIn (part : List Char) : List Char → Bool
  | [] => part.isEmpty
  | c :: rest => part.isPrefixOf (c :: rest) || occursIn part rest

def mentions (setting : Value) (name : Scalar) : Except Failure Bool :=
  match setting, name with
  | .list items, name => .ok (items.any ((Value.scalar name).same ·))
  | .map entries, name => .ok (entries.any (name.same ·.1))
  | .str text, .str name => .ok (occursIn name.toList text.toList)
  | _, _ => .error .wrongShape

/-- The schemas in the configured order as far as they exist, then all others.  A configured name
stands in the form in which it is configured. -/
def orderedNames (s : Session) : Except Failure (List Scalar) :=
  match s.settings.orderSchemas.bind Value.elements? with
  | none => .error .wrongShape
  | some elements =>
    match scalars? elements with
    | none => .error .wrongShape
    | some ordered =>
      let names := OrderedMap.keys s.schemas
      let first := ordered.filter fun name => names.any name.same
      .ok (first ++ names.filter fun name => !first.any name.same)

def names (s : Session) : Except Failure (List Scalar) := do
  let ordered ← s.orderedNames
  ordered.filterM fun name =>
    match s.settings.ignoreSchemas with
    | some ignored => not <$> mentions ignored name
    | none => .error .wrongShape

/-! ## Types -/

def view (mode : Value) : Except Failure View :=
  match View.ofValue? mode with
  | some view => .ok view
  | none => .error (Failure.worded (.unknownView mode))

def compileSchema (s : Session) (name : Scalar) (mode : Value) : Except Failure TypeExpr := do
  let view ← view mode
  match ScalarMap.find? s.schemas name with
  | none => .error (.unknownSchema name)
  | some schema =>
    let resolved := (resolveSchema s.context name.text? schema mode).result
    resolved.mapError (Failure.whileCompiling name view)

/-- The types of all schemas.  A schema that is named twice is compiled at its first place. -/
def compile (s : Session) (mode : Value) : Except Failure (ScalarMap TypeExpr) := do
  let names ← s.names
  let types ← names.mapM fun name => return (name, ← s.compileSchema name mode)
  return ScalarMap.ofPairs types

/-! ## Modules -/

def moduleOf (s : Session) (mode : Value) : Value :=
  if mode = .str View.read.name then s.settings.readModule else s.settings.writeModule

def fileName (s : Session) (mode : Value) : Except Failure String :=
  match s.moduleOf mode with
  | .str module => .ok (TypeNaming.moduleFile module)
  | _ => .error .wrongShape

def outline (s : Session) (mode : Value) (comment : String) : Except Failure Outline := do
  let _ ← view mode
  let types ← s.compile mode
  let definitions ← types.mapM fun (name, type) => do
    let descriptions ← match ScalarMap.find? s.schemas name with
      | some schema => Document.descriptions schema
      | none => .error (.unknownSchema name)
    return { name, type, descriptions : Definition }
  return { module := s.moduleOf mode
           comment := if s.settings.addComment.isPresent then comment else ""
           definitions }

def formatters : List String := ["black", "ruff"]

def formatter (tool : Value) : Except Failure String :=
  match tool with
  | .str name =>
    if name ∈ formatters then .ok name
    else .error (Failure.worded (.unknownFormatter tool))
  | .scalar _ => .error (Failure.worded (.unknownFormatter tool))
  | _ => .error .wrongShape

/-- A text stays as it is when no formatter is asked for, or the one asked for is not installed. -/
def format (s : Session) (text : String) : Except Failure String := do
  let settings ← Section.settings s.settings.formatter
  if settings.enabled.isPresent then
    let tool ← formatter settings.tool
    match s.installed tool with
    | some format => format settings text
    | none => return text
  else return text

def generate (s : Session) (mode : Value) (comment : String) : Except Failure String × Session :=
  match s.outline mode comment with
  | .error failure => (.error failure, s)
  | .ok outline =>
    let (text, emission) := (Emit.generate s.withDescriptions outline).run s.emission
    (text >>= s.format, { s with emission })

end Session

/-! ## Requests -/

inductive Request
  | names
  | compile (mode : Value)
  | compileSchema (name : Scalar) (mode : Value)
  | outline (mode : Value) (comment : String)
  | generate (mode : Value) (comment : String)
  | fileName (mode : Value)
  | assign (key : String) (value : Value)

inductive Reply
  | names (names : List Scalar)
  | types (types : ScalarMap TypeExpr)
  | type (type : TypeExpr)
  | outline (outline : Outline)
  | text (text : String)
  | done

namespace Session

def answer (s : Session) : Request → Except Failure Reply × Session
  | .names => (.names <$> s.names, s)
  | .compile mode => (.types <$> s.compile mode, s)
  | .compileSchema name mode => (.type <$> s.compileSchema name mode, s)
  | .outline mode comment => (.outline <$> s.outline mode comment, s)
  | .generate mode comment =>
    let (text, s) := s.generate mode comment
    (.text <$> text, s)
  | .fileName mode => (.text <$> s.fileName mode, s)
  | .assign key value =>
    match s.settings.assign key value with
    | .ok settings => (.ok .done, { s with settings })
    | .error failure => (.error failure, s)

end Session
end SchemaViews
