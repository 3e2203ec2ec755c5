import SchemaViews.Failure

/-!
# Settings

Settings are entered from a mapping, key by key.  Unknown keys are passed over, and values are kept
as they are: what a value is good for shows when it is used.  Only the sections `formatter` and
`output` are read when they are mappings; any other value stands for itself there, and fails where
the section is needed.

Four keys are reserved.  `__class__` and `__weakref__` are refused.  `__dict__` gives all settings
at once, so that the settings it leaves out are unknown from then on unless they have a fixed
default.  Settings with a key `to_dict` can be used but not exported.
-/

namespace SchemaViews

inductive OutputMode
  | refuse
  | force
deriving DecidableEq, Repr

namespace OutputMode

def name : OutputMode → String
  | .refuse => "error"
  | .force => "force"

def ofValue (v : Value) : Except Failure OutputMode :=
  if v = .str "error" then .ok .refuse
  else if v = .str "force" then .ok .force
  else .error (Failure.worded (.unknownOutputMode v))

end OutputMode

structure OutputSettings where
  mode : OutputMode := .refuse
  validate : Value := .bool true
  atomic : Value := .bool true
deriving DecidableEq

structure FormatterSettings where
  enabled : Value := .bool false
  tool : Value := .str "black"
  lineLength : Value := .int 100
  targetVersion : Value := .str "py312"
deriving DecidableEq

inductive Section (α : Type)
  | record (settings : α)
  | raw (value : Value)
deriving DecidableEq

/-- The settings that are optional here are unknown when they are absent. -/
structure Settings where
  readModule : Value := .str "schemas.read"
  writeModule : Value := .str "schemas.write"
  ignoreSchemas : Option Value := some (.list [])
  orderSchemas : Option Value := some (.list [])
  addComment : Value := .bool true
  includeDescriptions : Value := .bool true
  formatter : Option (Section FormatterSettings) := some (.record {})
  output : Option (Section OutputSettings) := some (.record {})
  exportable : Bool := true
deriving DecidableEq

def Section.settings (s : Option (Section α)) : Except Failure α :=
  match s with
  | some (.record settings) => .ok settings
  | _ => .error .wrongShape

namespace OutputSettings

def ofEntries (entries : Entries) : Except Failure OutputSettings := do
  let default : OutputSettings := {}
  let mode ← match entries.field? "mode" with
    | some mode => OutputMode.ofValue mode
    | none => .ok default.mode
  return { mode
           validate := (entries.field? "validate_before_write").getD default.validate
           atomic := (entries.field? "atomic_write").getD default.atomic }

def toValue (s : OutputSettings) : Value :=
  .map
    [(.str "mode", .str s.mode.name),
      (.str "validate_before_write", s.validate),
      (.str "atomic_write", s.atomic)]

end OutputSettings

namespace FormatterSettings

def keys : List Scalar :=
  [.str "enabled", .str "tool", .str "line_length", .str "target_version"]

def ofEntries (entries : Entries) : Except Failure FormatterSettings :=
  let default : FormatterSettings := {}
  if (OrderedMap.keys entries).all (· ∈ keys) then
    .ok
      { enabled := (entries.field? "enabled").getD default.enabled
        tool := (entries.field? "tool").getD default.tool
        lineLength := (entries.field? "line_length").getD default.lineLength
        targetVersion := (entries.field? "target_version").getD default.targetVersion }
  else .error .wrongShape

def toValue (s : FormatterSettings) : Value :=
  .map
    [(.str "enabled", s.enabled),
      (.str "tool", s.tool),
      (.str "line_length", s.lineLength),
      (.str "target_version", s.targetVersion)]

end FormatterSettings

namespace Settings

def replaced (entries : Entries) : Settings :=
  let default : Settings := {}
  { readModule := (entries.field? "read_module").getD default.readModule
    writeModule := (entries.field? "write_module").getD default.writeModule
    ignoreSchemas := entries.field? "ignore_schemas"
    orderSchemas := entries.field? "order_schemas"
    addComment := (entries.field? "add_generation_comment").getD default.addComment
    includeDescriptions := (entries.field? "include_descriptions").getD default.includeDescriptions
    formatter := (entries.field? "formatter").map .raw
    output := (entries.field? "output").map .raw
    exportable := (entries.field? "to_dict").isNone }

def assign (s : Settings) (key : String) (value : Value) : Except Failure Settings :=
  match key with
  | "read_module" => .ok { s with readModule := value }
  | "write_module" => .ok { s with writeModule := value }
  | "ignore_schemas" => .ok { s with ignoreSchemas := some value }
  | "order_schemas" => .ok { s with orderSchemas := some value }
  | "add_generation_comment" => .ok { s with addComment := value }
  | "include_descriptions" => .ok { s with includeDescriptions := value }
  | "formatter" => .ok { s with formatter := some (.raw value) }
  | "output" => .ok { s with output := some (.raw value) }
  | "to_dict" => .ok { s with exportable := false }
  | "__class__" | "__weakref__" => .error .wrongShape
  | "__dict__" =>
    match value with
    | .map entries => .ok (replaced entries)
    | _ => .error .wrongShape
  | _ => .ok s

/-- Whether a setting is known, as far as that can change. -/
def knows (s : Settings) : (key : String) → Bool
  | "ignore_schemas" => s.ignoreSchemas.isSome
  | "order_schemas" => s.orderSchemas.isSome
  | "formatter" => s.formatter.isSome
  | "output" => s.output.isSome
  | _ => true

def enter (s : Settings) : (entry : Scalar × Value) → Except Failure Settings
  | (.str "formatter", .map entries) => do
    return { s with formatter := some (.record (← FormatterSettings.ofEntries entries)) }
  | (.str "output", .map entries) => do
    return { s with output := some (.record (← OutputSettings.ofEntries entries)) }
  | (.str key, value) => if s.knows key then s.assign key value else .ok s
  | _ => .error .wrongShape

def ofValue : Value → Except Failure Settings
  | .map entries => entries.foldlM enter {}
  | _ => .error .wrongShape

def toValue (s : Settings) : Except Failure Value := do
  let formatter ← Section.settings s.formatter
  let output ← Section.settings s.output
  match s.exportable, s.ignoreSchemas, s.orderSchemas with
  | true, some ignored, some ordered =>
    return .map
      [(.str "read_module", s.readModule),
        (.str "write_module", s.writeModule),
        (.str "ignore_schemas", ignored),
        (.str "order_schemas", ordered),
        (.str "add_generation_comment", s.addComment),
        (.str "include_descriptions", s.includeDescriptions),
        (.str "formatter", formatter.toValue),
        (.str "output", output.toValue)]
  | _, _, _ => .error .wrongShape

def survivesExport (s : Settings) : Except Failure Bool := do
  let again ← ofValue (← s.toValue)
  return again = s

end Settings
end SchemaViews
