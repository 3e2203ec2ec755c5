import SchemaViews.Declaration
import SchemaViews.Failure
import SchemaViews.TypeExpression
import SchemaViews.TypeNaming
import SchemaViews.ValueEquality

/-!
# Emitting a module

A module is emitted declaration by declaration.  Structural objects inside a type are declared on
their own, before the declaration that mentions them, under fresh names taken from the path that
leads to them.  What the module has to import is noted on the way.  A failure leaves everything
that was emitted before it.
-/

namespace SchemaViews

inductive Construct
  | any
  | literal
  | never
  | notRequired
  | typedDict
deriving DecidableEq, Repr

namespace Construct

def all : List Construct :=
  [any, literal, never, notRequired, typedDict]

def name : Construct → String
  | .any => "Any"
  | .literal => "Literal"
  | .never => "Never"
  | .notRequired => "NotRequired"
  | .typedDict => "TypedDict"

end Construct

structure Definition where
  name : Scalar
  type : TypeExpr
  descriptions : List String

def Definition.typeName (d : Definition) : Except Failure String :=
  match d.name with
  | .str name => .ok (TypeNaming.typeName name)
  | _ => .error .wrongShape

structure Outline where
  module : Value
  comment : String
  definitions : List Definition

structure Emission where
  module : Value
  constructs : List Construct
  modules : List String
  used : List String
  declarations : List Declaration

def Emission.start (module : Value) : Emission where
  module := module
  constructs := []
  modules := []
  used := []
  declarations := []

abbrev Emit := ExceptT Failure (StateM Emission)

namespace Emit

def require (construct : Construct) : Emit Unit :=
  modify fun e =>
    if construct ∈ e.constructs then e
    else { e with constructs := e.constructs ++ [construct] }

def declare (declaration : Declaration) : Emit Unit :=
  modify fun e => { e with declarations := e.declarations ++ [declaration] }

def fresh (hint : String) : Emit String := do
  let name := TypeNaming.freshName (← get).used hint
  modify fun e => { e with used := e.used ++ [name] }
  return name

/-- The name of a type, behind the name of its module unless that is the module at hand.  Lists and
mappings cannot be modules. -/
def reference (module : Value) (schema : String) : Emit String := do
  let name := TypeNaming.typeName schema
  if module = .null ∨ module.same (← get).module then return name
  else match module with
    | .scalar _ => do
      let shown ← module.written
      modify fun e =>
        if shown ∈ e.modules then e else { e with modules := e.modules ++ [shown] }
      return shown ++ "." ++ name
    | _ => throw .wrongShape

/-! ## Annotations -/

def primitiveName : PrimitiveKind → String
  | .string => "str"
  | .binary => "bytes"
  | .boolean => "bool"
  | .float => "float"
  | .integer => "int"

def literalText (values : List String) : String :=
  "Literal[" ++ ", ".intercalate (values.map StringLiteral.encode) ++ "]"

mutual

def translate (hint : String) : TypeExpr → Emit String
  | .missing => throw .wrongShape
  | .primitive kind => return primitiveName kind
  | .nullable inner => return (← translate hint inner) ++ " | None"
  | .list item => return "list[" ++ (← translate (hint ++ "Item") item) ++ "]"
  | .freeList => do
    require .any
    return "list[Any]"
  | .freeMap => do
    require .any
    return "dict[str, Any]"
  | .union alternatives => do
    if alternatives.isEmpty then
      require .never
      return "Never"
    return " | ".intercalate (← translateAll hint 1 alternatives)
  | .literal values => do
    if values.isEmpty then
      require .never
      return "Never"
    require .literal
    return literalText values
  | .named module name => reference module name
  | .struct fields => do
    let name ← fresh hint
    require .typedDict
    let lines ← translateFields name fields
    declare (.record name [] lines)
    return name

def translateAll (hint : String) (number : Nat) : List TypeExpr → Emit (List String)
  | [] => return []
  | type :: rest => do
    let text ← translate (hint ++ "Variant" ++ toString number) type
    let texts ← translateAll hint (number + 1) rest
    return text :: texts

def translateFields (owner : String) : List (Field TypeExpr) → Emit (List FieldLine)
  | [] => return []
  | ⟨.str key, optional, type⟩ :: rest => do
    let text ← translate (owner ++ TypeNaming.pascalOr "Field" key) type
    if optional then require .notRequired
    let line := ⟨key, if optional then "NotRequired[" ++ text ++ "]" else text⟩
    let lines ← translateFields owner rest
    return line :: lines
  | _ => throw .wrongShape

end

def define (withDescriptions : Bool) (d : Definition) : Emit Unit := do
  let name ← d.typeName
  let lines := if withDescriptions then Lines.ofDescriptions d.descriptions else []
  match d.type with
  | .struct fields =>
    require .typedDict
    let fieldLines ← translateFields name fields
    declare (.record name lines fieldLines)
  | type =>
    let text ← translate name type
    declare (.alias name lines text)

end Emit

/-! ## Modules -/

namespace Emission

def typingLine (e : Emission) : List String :=
  match (Construct.all.filter (· ∈ e.constructs)).map Construct.name with
  | [] => []
  | names => ["from typing import " ++ ", ".intercalate names]

def moduleLines (e : Emission) : List String :=
  (e.modules.mergeSort fun a b => decide (a ≤ b)).map ("import " ++ ·)

def importLines (e : Emission) : List String :=
  match e.typingLine, e.moduleLines with
  | [], modules => modules
  | typing, [] => typing
  | typing, modules => typing ++ "" :: modules

def heading (e : Emission) (comment : String) : String :=
  let commentPart := if comment = "" then "" else "# " ++ comment ++ "\n\n"
  let importPart :=
    if e.importLines.isEmpty then "" else "\n" ++ String.join (e.importLines.map (· ++ "\n"))
  Lines.dropFinalFeeds
    (commentPart ++ "from __future__ import annotations\n" ++ importPart)

def text (e : Emission) (comment : String) : String :=
  "\n\n\n".intercalate (e.heading comment :: e.declarations.map Declaration.text) ++ "\n"

end Emission

namespace Emit

/-- The names of the types that a list of definitions declares, which have to be different, with the
schemas that they stand for. -/
def declaredNames (declared : OrderedMap String Scalar) :
    List Definition → Except Failure (OrderedMap String Scalar)
  | [] => .ok declared
  | d :: rest => do
    let name ← d.typeName
    match OrderedMap.find? declared name with
    | some earlier => .error (.nameClash earlier d.name name)
    | none => declaredNames (declared ++ [(name, d.name)]) rest

def generate (withDescriptions : Bool) (outline : Outline) : Emit String := do
  set (Emission.start outline.module)
  let declared ← declaredNames [] outline.definitions
  modify fun e => { e with used := OrderedMap.keys declared }
  outline.definitions.forM (define withDescriptions)
  return (← get).text outline.comment

end Emit
end SchemaViews
