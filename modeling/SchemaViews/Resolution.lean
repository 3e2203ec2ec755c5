import SchemaViews.DiscriminatorTag
import SchemaViews.FragmentReading
import SchemaViews.Scope

/-!
# Resolving fragments to types

Most of a fragment is resolved by going down into its parts.  Compositions are not: their parts are
merged into a new schema, which is read and resolved in their place, and so is an alternative that
gets its tag.  References are never followed, but merging copies from the components they name, so
a component that composes itself in one of its properties has no type; its resolution is endless.

What a merged schema holds below its top was below the top of the merged parts as well.  So a
composition inside a composition lies deeper in the same component, or in one that was opened on the
way; unless components compose each other in a circle, the way through all of them bounds the
nesting.  Four hundred more are allowed, for schemas that are not components.
-/

namespace SchemaViews

def Annotations.hiddenIn (notes : Annotations) : View → Bool
  | .read => notes.writeOnly
  | .write => notes.readOnly

def Annotations.qualify (notes : Annotations) (type : TypeExpr) : TypeExpr :=
  if notes.nullable then .nullable type else type

/-! ## Scalars -/

def floatFormats : List Value := [.str "float", .str "double"]

/-- Numbers without a floating format may be integers as well. -/
def primitiveType (notes : Annotations) (declared : DeclaredType) (format : Value) :
    Except Failure TypeExpr :=
  match declared with
  | .single (.str "string") =>
    .ok (.primitive (if format ∈ binaryFormats then .binary else .string))
  | .single (.str "boolean") => .ok (.primitive .boolean)
  | .single (.str "number") =>
    if format ∈ floatFormats then .ok (.primitive .float)
    else .ok (.union [.primitive .float, .primitive .integer])
  | .single (.str "integer") => .ok (.primitive .integer)
  | declared => .error (Failure.worded (.unknownType declared notes.raw none))

/-- Only what is sent has to be one of the enumerated values. -/
def choiceType (view : View) (values : List String) : TypeExpr :=
  match view with
  | .read => .primitive .string
  | .write => .literal values

namespace Scope

/-! ## Merged schemas

`again` resolves a schema that merging has produced, `type` the fragment at hand. -/

def merged (s : Scope) (again : Fragment → Outcome TypeExpr) (parts : List Fragment)
    (keep : Entries → Entries) : Outcome TypeExpr := do
  let flat ← s.context.arena.merge (parts.map Fragment.rawValue)
  let whole ← Fragment.read (.map (keep flat))
  again whole

def visibleField (s : Scope) (name : Scalar) (required : Bool) (notes : Annotations)
    (type : Unit → Outcome TypeExpr) : Outcome (Option (Field TypeExpr)) :=
  if notes.hiddenIn s.view then pure none
  else do
    let type ← type ()
    return some ⟨name, !required, type⟩

/-- The field of a property, unless it is hidden.  The keys beside an `allOf` are merged with its
parts, so that annotations can stand at either place. -/
def field (s : Scope) (again : Fragment → Outcome TypeExpr) (name : Scalar) (required : Bool)
    (property : Fragment) (type : Unit → Outcome TypeExpr) :
    Outcome (Option (Field TypeExpr)) :=
  match property with
  | .allOf notes parts => do
    let siblings := notes.raw.dropField "allOf"
    let flat ← s.context.arena.merge (parts.map Fragment.rawValue ++ [.map siblings])
    let whole ← Fragment.read (.map flat)
    s.visibleField name required whole.notes fun _ => again whole
  | property => s.visibleField name required property.notes type

def alternative (s : Scope) (again : Fragment → Outcome TypeExpr) (d : Discriminator)
    (option : Fragment) (type : Unit → Outcome TypeExpr) : Outcome TypeExpr := do
  match ← d.tag s.context.arena option with
  | some tag =>
    let flat ← Discriminator.taggedOption s.context.arena option.rawValue d.property tag
    let whole ← Fragment.read (.map flat)
    again whole
  | none =>
    Outcome.warn (.untaggedOption s.origin d.property)
    type ()

/-! ## Fragments -/

mutual

def resolveWith (s : Scope) (again : Fragment → Outcome TypeExpr) : Fragment → Outcome TypeExpr
  | .reference notes target => notes.qualify <$> (s.named target.name : Outcome TypeExpr)
  | .primitive notes declared format =>
    notes.qualify <$> (primitiveType notes declared format : Outcome TypeExpr)
  | .choice notes values _ => pure (notes.qualify (choiceType s.view values))
  | .object notes properties required =>
    (fun fields => notes.qualify (.struct fields)) <$> resolveFields s again required properties
  | .freeObject notes => pure (notes.qualify .freeMap)
  | .array notes items => (fun item => notes.qualify (.list item)) <$> resolveWith s again items
  | .freeArray notes => pure (notes.qualify .freeList)
  | .oneOf notes options discriminator =>
    (fun types => notes.qualify (.unionOf types)) <$> resolveOptions s again discriminator options
  | .allOf notes parts => notes.qualify <$> s.merged again parts id
  | .anyOf notes parts =>
    notes.qualify <$> s.merged again parts fun flat => flat.dropField "required"

def resolveFields (s : Scope) (again : Fragment → Outcome TypeExpr) (required : List Scalar) :
    List (Scalar × Fragment) → Outcome (List (Field TypeExpr))
  | [] => pure []
  | (name, property) :: rest => do
    let field ← s.field again name (required.any name.sameKey) property
      fun _ => resolveWith s again property
    let fields ← resolveFields s again required rest
    return field.toList ++ fields

def resolveOptions (s : Scope) (again : Fragment → Outcome TypeExpr) (d : Option Discriminator) :
    List Fragment → Outcome (List TypeExpr)
  | [] => pure []
  | option :: rest => do
    let type ← match d with
      | some d => s.alternative again d option fun _ => resolveWith s again option
      | none => resolveWith s again option
    let types ← resolveOptions s again d rest
    return type :: types

end

/-- Resolution with a bound on the number of merged schemas inside one another. -/
def resolveWithin (s : Scope) : (bound : Nat) → Fragment → Outcome TypeExpr
  | 0 => s.resolveWith fun _ => Outcome.fail .endless
  | bound + 1 => s.resolveWith (s.resolveWithin bound)

end Scope

/-! ## The bound -/

namespace Value

mutual

def depth : Value → Nat
  | .scalar _ => 0
  | .list items => itemsDepth items + 1
  | .map entries => entriesDepth entries + 1

def itemsDepth : List Value → Nat
  | [] => 0
  | v :: rest => max v.depth (itemsDepth rest)

def entriesDepth : List (Scalar × Value) → Nat
  | [] => 0
  | (_, v) :: rest => max v.depth (entriesDepth rest)

end

end Value

namespace Arena

def nesting (arena : Arena) : Nat :=
  400 + (arena.length + 1) * ((arena.map fun entry => entry.2.depth).foldl max 0 + 1)

end Arena

namespace Scope

def resolve (s : Scope) (fragment : Fragment) : Outcome TypeExpr :=
  s.resolveWithin s.context.arena.nesting fragment

def resolveProperty (s : Scope) (name : Scalar) (required : Bool) (property : Fragment) :
    Outcome (Option (Field TypeExpr)) :=
  s.field s.resolve name required property fun _ => s.resolve property

end Scope

def resolveSchema (context : Context) (origin : Option String) (schema view : Value) :
    Outcome TypeExpr := do
  let fragment ← Fragment.read schema
  match View.ofValue? view with
  | some view => Scope.resolve ⟨view, context, origin⟩ fragment
  | none => Outcome.fail (Failure.worded (.unknownView view))

end SchemaViews
