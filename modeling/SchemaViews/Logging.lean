/-!
# Logging

The level of the log follows the debug switch, and the environment where the switch is off.  Setting
up the log again replaces its handlers by a single one.
-/

namespace SchemaViews

inductive LogLevel
  | debug
  | warning
deriving DecidableEq, Repr

namespace LogLevel

def name : LogLevel → String
  | .debug => "DEBUG"
  | .warning => "WARNING"

end LogLevel

structure Log where
  level : LogLevel := .warning
  handlers : List LogLevel := []
deriving DecidableEq, Repr

namespace Log

def environmentVariable : String := "OPENAPI_TYPESPEC_DEBUG"

def switchesOn (value : String) : Bool :=
  String.ofList (value.toList.map Char.toLower) ∈ ["1", "true", "yes"]

def configure (_ : Log) (debug : Bool) (environment : Option String) : Log :=
  let level := if debug || environment.any switchesOn then LogLevel.debug else .warning
  { level, handlers := [level] }

end Log
end SchemaViews
