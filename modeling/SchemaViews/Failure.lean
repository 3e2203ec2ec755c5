import SchemaViews.Display
import SchemaViews.View

/-!
# Why a step fails

A failure names its cause.  The wording of a message, where the cause has one, is a function of
the cause.
-/

namespace SchemaViews

/-- What a schema declares under `type` when no kind can be read from it: one value, or a list in
which null is the only kind. -/
inductive DeclaredType
  | single (type : Value)
  | onlyNull (types : List Value)
deriving DecidableEq

def DeclaredType.quoted : DeclaredType → String
  | .single type => type.quoted
  | .onlyNull types => Value.quotedRow types

def DeclaredType.isWritable : DeclaredType → Bool
  | .single type => type.isWritable
  | .onlyNull types => (Value.list types).isWritable

inductive Failure
  | wrongShape
  | endless
  | unknownSchema (name : Scalar)
  | unknownType (declared : DeclaredType) (definition : Entries)
      (compiled : Option (Scalar × View))
  | noDocument (path : String)
  | noSchemas
  | nameClash (first second : Scalar) (typeName : String)
  | unknownView (given : Value)
  | unknownOutputMode (given : Value)
  | unknownFormatter (given : Value)
  | noPair (index length : Nat)
  | malformedJson
  | malformedYaml
  | tooManyDigits (limit count : Nat)
  | noDigits (base : Nat)
  | tooLong (limit : Nat)
  | noMoment (fault : Moment.Fault)
  | outputExists (path : String)
  | fileInPlaceOfDirectory (path : String)
  | pathThroughFile
  | outputIsDirectory
  | noFile (path : String)
  | nullInName
  | unencodable
  | syntaxFault (message : String)
  | invalidCode (message : String)
deriving DecidableEq

namespace Failure

def message? : Failure → Option String
  | .unknownSchema name => name.quoted
  | .unknownType declared definition _ =>
    s!"Unknown schema type {declared.quoted} in {(Value.map definition).quoted}"
  | .noDocument path => path ++ " does not contain an OpenAPI document"
  | .noSchemas => some "Document has no components.schemas mapping"
  | .nameClash first second typeName =>
    "Schemas " ++ first.quoted ++ " and " ++ second.quoted ++ " both generate the type "
      ++ Display.quoteText typeName
  | .unknownView given => given.quoted ++ " is not a valid ViewMode"
  | .unknownOutputMode given => given.quoted ++ " is not a valid OutputMode"
  | .unknownFormatter given =>
    "Unknown formatter " ++ given.quoted ++ ", expected one of ['black', 'ruff']"
  | .noPair index length =>
    s!"dictionary update sequence element #{index} has length {length}; 2 is required"
  | .tooManyDigits limit count =>
    s!"Exceeds the limit ({limit} digits) for integer string conversion: "
      ++ s!"value has {count} digits; use sys.set_int_max_str_digits() to increase the limit"
  | .tooLong limit =>
    s!"Exceeds the limit ({limit} digits) for integer string conversion; "
      ++ "use sys.set_int_max_str_digits() to increase the limit"
  | .noMoment fault => fault.message
  | .noDigits base => s!"invalid literal for int() with base {base}: ''"
  | .outputExists path =>
    "Output file already exists: " ++ path ++ ". Use force mode to overwrite."
  | .fileInPlaceOfDirectory path => "[Errno 17] File exists: " ++ Display.quoteText path
  | .noFile path => "[Errno 2] No such file or directory: " ++ Display.quoteText path
  | .nullInName => some "embedded null byte"
  | .syntaxFault message => message
  | .invalidCode message => "Generated Python code is not valid: " ++ message
  | _ => none

def note? : Failure → Option String
  | .unknownType _ _ (some (name, view)) =>
    s!"while compiling schema {name.quoted} ({view.name} mode)"
  | _ => none

def isWritable : Failure → Bool
  | .unknownType declared definition compiled =>
    declared.isWritable && (Value.map definition).isWritable
      && compiled.all fun (name, _) => name.isWritable
  | .unknownView given | .unknownOutputMode given | .unknownFormatter given => given.isWritable
  | _ => true

/-- The failure that is met when a failure is put into words. -/
def worded (failure : Failure) : Failure :=
  if failure.isWritable then failure else .tooLong Numerals.digitLimit

def whileCompiling (name : Scalar) (view : View) : Failure → Failure
  | .unknownType declared definition _ =>
    worded (.unknownType declared definition (some (name, view)))
  | failure => failure

end Failure

namespace Value

def written (v : Value) : Except Failure String :=
  if v.isWritable then .ok v.shown else .error (.tooLong Numerals.digitLimit)

@[simp] theorem written_str (text : String) : (Value.str text).written = .ok text := rfl

theorem written_of_isWritable {v : Value} (h : v.isWritable = true) : v.written = .ok v.shown :=
  if_pos h

theorem written_eq_ok {v : Value} {text : String} (h : v.written = .ok text) :
    v.shown = text := by
  unfold written at h
  split at h
  · exact Except.ok.inj h
  · cases h

end Value

end SchemaViews
