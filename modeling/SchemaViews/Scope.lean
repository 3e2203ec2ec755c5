import SchemaViews.Flattening
import SchemaViews.TypeExpression

/-!
# Where references lead

The types of each view stand in modules, which a context names for every component.  A scope is a
context together with the view that is produced and the component that is being compiled: the
origin, whose references to itself need no module.
-/

namespace SchemaViews

structure Context where
  readModules : OrderedMap String Value
  writeModules : OrderedMap String Value
  arena : Arena

namespace Context

def uniform (readModule writeModule : Value) (arena : Arena) : Context where
  readModules := arena.map fun entry => (entry.1, readModule)
  writeModules := arena.map fun entry => (entry.1, writeModule)
  arena := arena

def modules (c : Context) : View → OrderedMap String Value
  | .read => c.readModules
  | .write => c.writeModules

def moduleOf (c : Context) (view : View) (name : String) : Except Failure Value :=
  match OrderedMap.find? (c.modules view) name with
  | some module => .ok module
  | none => .error (.unknownSchema (.str name))

end Context

structure Scope where
  view : View
  context : Context
  origin : Option String

namespace Scope

def named (s : Scope) (name : String) : Except Failure TypeExpr :=
  if s.origin = some name then .ok (.named .null name)
  else do
    let module ← s.context.moduleOf s.view name
    return .named module name

end Scope
end SchemaViews
