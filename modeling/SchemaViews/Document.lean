import SchemaViews.Lines
import SchemaViews.Location
import SchemaViews.Flattening

/-!
# Documents

A document is a mapping, read from a JSON file or, by the ending of its name, from a YAML file.
How the two languages are read is no matter of documents.  References are marked once, when a
document is loaded.
-/

namespace SchemaViews

structure Readers where
  json : String → Except Failure Value
  yaml : String → Except Failure Value

namespace Document

def isYaml (file : Location) : Bool :=
  file.suffix = ".yaml" ∨ file.suffix = ".yml"

def load (readers : Readers) (file : Location) (text : String) : Outcome Value := do
  let value ← if isYaml file then readers.yaml text else readers.json text
  match value with
  | .map _ => value.markReferences
  | _ => Outcome.fail (.noDocument file.text)

/-- The component schemas of a document, under `components.schemas`. -/
def components (document : Value) : Except Failure Entries :=
  match document with
  | .map entries =>
    let components := Entries.fieldOrNull entries "components"
    match components with
    | .map entries =>
      match Entries.field? entries "schemas" with
      | some (.map schemas) => .ok schemas
      | _ => .error .noSchemas
    | _ => if components.isPresent then .error .wrongShape else .error .noSchemas
  | _ => .error .wrongShape

/-! ## Descriptions -/

def descriptionOf (fragment : Value) : Except Failure (List String) :=
  match fragment with
  | .map entries =>
    match Entries.field? entries "description" with
    | some (.str text) => .ok (if Lines.isBlankText text then [] else [text])
    | _ => .ok []
  | _ => .error .wrongShape

def descriptions (schema : Value) : Except Failure (List String) :=
  match schema with
  | .map entries =>
    let parts := Entries.fieldOrNull entries "allOf"
    match if parts.isPresent then parts.elements? else some [] with
    | some fragments => do
      let texts ← (schema :: fragments).mapM descriptionOf
      return texts.flatten
    | none => .error .wrongShape
  | _ => .error .wrongShape

end Document
end SchemaViews
