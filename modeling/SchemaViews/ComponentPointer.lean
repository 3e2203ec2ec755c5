import SchemaViews.Outcome
import SchemaViews.Pieces

/-!
# Pointers to components

A schema is referred to by a pointer text, `#/components/schemas/` and the escaped name.  Before
anything else such pointers are replaced by references, which cannot be mistaken for text: a
mapping with a pointer under `$ref` gets the reference under its own key instead.
-/

namespace SchemaViews

def referenceKey : String := "__ref__"

def Reference.path (r : Reference) : List String :=
  segments '.' r.kind ++ [r.name]

namespace ComponentPointer

def root : List Char :=
  "#/components/schemas/".toList

def replacePair (first second target : Char) : List Char → List Char
  | a :: b :: rest =>
    if a = first ∧ b = second then target :: replacePair first second target rest
    else a :: replacePair first second target (b :: rest)
  | text => text

/-- Escaped slashes are restored before escaped tildes. -/
def unescape (name : List Char) : List Char :=
  replacePair '~' '0' '~' (replacePair '~' '1' '/' name)

def parse? (pointer : String) : Option Reference :=
  if root.isPrefixOf pointer.toList then
    let name := pointer.toList.drop root.length
    if name = [] ∨ '/' ∈ name then none
    else some { name := String.ofList (unescape name) }
  else none

/-- The path that the target of a discriminator mapping denotes: a local pointer, or the bare name
of a schema. -/
def targetPath? (target : String) : Option (List String) :=
  if "#/".toList.isPrefixOf target.toList then
    some (segments '/' (String.ofList (target.toList.drop 2)))
  else if '/' ∉ target.toList ∧ '#' ∉ target.toList then some ["components", "schemas", target]
  else none

end ComponentPointer

/-! ## Marking references -/

namespace Entries

def reference? (entries : Entries) : Option Reference :=
  match entries.field? referenceKey with
  | some (.ref target) => some target
  | _ => none

def pointer? (entries : Entries) : Option (String × Option Reference) :=
  match entries.field? "$ref" with
  | some (.str pointer) => some (pointer, ComponentPointer.parse? pointer)
  | _ => none

end Entries

namespace Value

mutual

def markReferences : Value → Outcome Value
  | .scalar s => pure (.scalar s)
  | .list items => .list <$> markItems items
  | .map entries =>
    match Entries.pointer? entries with
    | some (_, some target) => do
      let marked ← markEntries (fun key => key ≠ .str "$ref") entries
      return .map (Entries.setField marked referenceKey (.ref target))
    | some (pointer, none) => do
      Outcome.warn (.unsupportedReference pointer)
      .map <$> markEntries (fun _ => true) entries
    | none => .map <$> markEntries (fun _ => true) entries

def markItems : List Value → Outcome (List Value)
  | [] => pure []
  | v :: rest => do
    let v ← v.markReferences
    let rest ← markItems rest
    return v :: rest

def markEntries (keep : Scalar → Bool) : List (Scalar × Value) → Outcome (List (Scalar × Value))
  | [] => pure []
  | (k, v) :: rest =>
    if keep k then do
      let v ← v.markReferences
      let rest ← markEntries keep rest
      return (k, v) :: rest
    else markEntries keep rest

end

end Value
end SchemaViews
