import SchemaViews.ComponentPointer
import SchemaViews.Merging

/-!
# Flattening compositions

A schema that is composed of others is expanded into one flat mapping.  `allOf` takes precedence
and stands for its merged parts, `anyOf` for its merged parts without `required`, and a reference
for the component it names, merged with the keys beside it.  References deeper inside are left
alone.

Every path of an expansion can follow a reference only as often as there are components, unless it
comes to one of them again; such an expansion has no end, and fails.
-/

-- look-ups are named for the termination proofs only
set_option linter.unusedVariables false

namespace SchemaViews

abbrev Arena := OrderedMap String Value

namespace Arena

def ofEntries (schemas : Entries) : Arena :=
  schemas.filterMap fun
    | (.str name, schema) => some (name, schema)
    | _ => none

/-- Merges expansions from left to right.  The result is never a reference. -/
def overlay (expansions : List Entries) : Entries :=
  (expansions.foldl Value.mergeEntries []).dropField referenceKey

mutual

/-- Expands a schema; `component` says what the schema of a given name expands to. -/
def expandWith (component : String → Option (Outcome Entries)) (schema : Value) :
    Outcome Entries :=
  match schema with
  | .map raw =>
    match hall : Entries.field? raw "allOf" with
    | some parts => overlay <$> expandParts component parts
    | none =>
      match hany : Entries.field? raw "anyOf" with
      | some parts => (fun expansions => (overlay expansions).dropField "required") <$>
          expandParts component parts
      | none =>
        match Entries.reference? raw with
        | none => pure raw
        | some target =>
          match component target.name with
          | some expansion =>
            (fun expanded => overlay [expanded, Entries.dropField raw referenceKey]) <$> expansion
          | none => do
            Outcome.warn (.unknownComponent target.name)
            return raw
  | _ => Outcome.fail .wrongShape
termination_by 2 * schema.size
decreasing_by
  · have := Entries.size_lt_of_field hall
    omega
  · have := Entries.size_lt_of_field hany
    omega

def expandParts (component : String → Option (Outcome Entries)) (parts : Value) :
    Outcome (List Entries) :=
  match parts with
  | .list items => items.attach.mapM fun item => expandWith component item.val
  | other => if other.elements? = some [] then pure [] else Outcome.fail .wrongShape
termination_by 2 * parts.size
decreasing_by
  have := Value.size_lt_of_mem item.property
  omega

end

/-- Expansion with a bound on the number of references followed one after the other. -/
def expandWithin (arena : Arena) : (bound : Nat) → Value → Outcome Entries
  | 0 => expandWith fun name => (OrderedMap.find? arena name).map fun _ => Outcome.fail .endless
  | bound + 1 => expandWith fun name => (OrderedMap.find? arena name).map (expandWithin arena bound)

def expand (arena : Arena) (schema : Value) : Outcome Entries :=
  expandWithin arena arena.length schema

def merge (arena : Arena) (schemas : List Value) : Outcome Entries :=
  overlay <$> schemas.mapM arena.expand

end Arena
end SchemaViews
