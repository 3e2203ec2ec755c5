import SchemaViews.Value

/-!
# The two views of a schema

The read view describes what a server sends, the write view what a client sends.
-/

namespace SchemaViews

inductive View
  | read
  | write
deriving DecidableEq, Repr

namespace View

def name : View → String
  | .read => "read"
  | .write => "write"

def ofValue? (v : Value) : Option View :=
  if v = .str "read" then some .read
  else if v = .str "write" then some .write
  else none

end View
end SchemaViews
