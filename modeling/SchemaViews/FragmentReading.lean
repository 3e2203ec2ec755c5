import SchemaViews.ComponentPointer
import SchemaViews.Failure
import SchemaViews.Fragment
import SchemaViews.ValueEquality

/-!
# Reading fragments

A schema is sorted by the first of these that applies: its reference, its `type` when that is a
list or a known name, its `oneOf`, its `allOf`, its `anyOf`, its `type` whatever that is.  Without
any of them it is an object.

A `type` that lists a single kind beside null means that kind; null among the listed kinds makes
the fragment nullable.
-/

-- look-ups are named for the termination proofs only
set_option linter.unusedVariables false

namespace SchemaViews

/-! ## Listed types -/

def nullKind : Value := .str "null"

def kindsOf (types : List Value) : List Value :=
  types.filter (· ≠ nullKind)

/-- The kind that a list of types comes down to, as long as it lists a single one, and whether null
was met on the way. -/
def soleKind (nullable : Bool) (type : Value) : Bool × Value :=
  match type with
  | .list types =>
    match hkind : kindsOf types with
    | [kind] => soleKind (nullable || types.contains nullKind) kind
    | _ => (nullable, .list types)
  | type => (nullable, type)
termination_by type.size
decreasing_by
  have hmem : kind ∈ kindsOf types := by simp [hkind]
  have := Value.size_lt_of_mem (List.mem_filter.1 hmem).1
  omega

theorem soleKind_size (nullable : Bool) (type : Value) :
    (soleKind nullable type).2.size ≤ type.size := by
  fun_induction soleKind nullable type with
  | case1 nullable types kind h ih =>
    have hmem : kind ∈ kindsOf types := by simp [h]
    have := Value.size_lt_of_mem (List.mem_filter.1 hmem).1
    omega
  | case2 => exact Nat.le_refl _
  | case3 => exact Nat.le_refl _

def settle (schema : Entries) : Entries :=
  match schema.field? "type" with
  | some (.list types) =>
    match kindsOf types with
    | [_] =>
      let sole := soleKind (schema.isTrue "nullable") (.list types)
      (schema.setField "type" sole.2).setField "nullable" (.bool sole.1)
    | _ => schema
  | _ => schema

theorem settle_type_size {schema : Entries} {type : Value}
    (h : (settle schema).field? "type" = some type) :
    type.size + 1 < (Value.map schema).size := by
  unfold settle at h
  split at h
  · next types htype =>
    have hsize := Entries.size_lt_of_field htype
    split at h
    · rw [Entries.setField, Entries.field?, OrderedMap.find?_insert_of_ne (by decide),
        Entries.setField, OrderedMap.find?_insert_self, Option.some.injEq] at h
      subst h
      have := soleKind_size (schema.isTrue "nullable") (.list types)
      omega
    · exact Entries.size_lt_of_field h
  · exact Entries.size_lt_of_field h

/-! ## Parts of a schema -/

/-- Formats under which a string holds bytes, so that an enumeration says nothing about it. -/
def binaryFormats : List Value := [.str "byte", .str "binary"]

def enumTexts (enum : Value) : Except Failure (List String) :=
  match enum.elements? with
  | some values => (values.filter (· ≠ .null)).mapM Value.written
  | none => .error .wrongShape

def scalars? : List Value → Option (List Scalar)
  | [] => some []
  | .scalar s :: rest => (scalars? rest).map (s :: ·)
  | _ :: _ => none

def requiredNames (required : Value) : Except Failure (List Scalar) :=
  if required.isPresent then
    match required.elements?.bind scalars? with
    | some names => .ok (Scalar.distinct names)
    | none => .error .wrongShape
  else .ok []

def pair? (index : Nat) (element : Value) : Except Failure (Scalar × Value) :=
  match element.elements? with
  | some [.scalar key, value] => .ok (key, value)
  | some [_, _] => .error .wrongShape
  | some elements => .error (.noPair index elements.length)
  | none => .error .wrongShape

def mappingEntries (mapping : Value) : Except Failure Entries :=
  if !mapping.isPresent then .ok []
  else match mapping with
    | .map entries => .ok entries
    | _ =>
      match mapping.elements? with
      | none => .error .wrongShape
      | some elements => do
        let pairs ← elements.zipIdx.mapM fun (element, index) => pair? index element
        return ScalarMap.ofPairs pairs

def readDiscriminator (schema : Entries) : Except Failure (Option Discriminator) :=
  match schema.field? "discriminator" with
  | some (.map entries) =>
    match Entries.field? entries "propertyName" with
    | some property => do
      let mapping ← mappingEntries (Entries.fieldOrNull entries "mapping")
      return some ⟨property, mapping⟩
    | none => .ok none
  | _ => .ok none

/-! ## Fragments -/

def scalarKinds : List String := ["string", "boolean", "number", "integer"]

def readScalar (notes : Annotations) (kind : String) (schema : Entries) :
    Except Failure Fragment :=
  let format := schema.fieldOrNull "format"
  match schema.field? "enum" with
  | some enum =>
    if kind = "string" ∧ format ∉ binaryFormats then
      return .choice notes (← enumTexts enum) format
    else .ok (.primitive notes (.single (.str kind)) format)
  | none => .ok (.primitive notes (.single (.str kind)) format)

namespace Fragment

mutual

def read (value : Value) : Except Failure Fragment :=
  match value with
  | .map schema =>
    match Entries.reference? schema with
    | some target => .ok (.reference (Annotations.of schema) target)
    | none =>
      let notes := Annotations.of (settle schema)
      match htype : (settle schema).field? "type" with
      | some (.list types) => do
        let notes := { notes with nullable := notes.nullable || types.contains nullKind }
        if kindsOf types = [] then
          return .primitive notes (.onlyNull types) (Entries.fieldOrNull schema "format")
        let options ← (kindsOf types).attach.mapM fun kind => read (.map [(.str "type", kind.val)])
        return .oneOf notes options none
      | some (.str kind) =>
        if kind ∈ scalarKinds then readScalar notes kind schema
        else if kind = "object" then readObject notes schema
        else if kind = "array" then
          match hitems : Entries.field? schema "items" with
          | some items => return .array notes (← read items)
          | none => .ok (.freeArray notes)
        else readComposition notes schema (some (.str kind))
      | type => readComposition notes schema type
  | _ => .error .wrongShape
termination_by 4 * value.size + 2
decreasing_by
  · have hmem := Value.size_lt_of_mem (List.mem_filter.1 kind.2).1
    have hsize := settle_type_size htype
    simp only [Value.size, Value.entriesSize] at *
    omega
  · omega
  · have := Entries.size_lt_of_field hitems
    omega
  · omega
  · omega

def readObject (notes : Annotations) (schema : Entries) : Except Failure Fragment :=
  match hprops : Entries.field? schema "properties" with
  | some (.map properties) => do
    let properties ← properties.attach.mapM fun entry => do
      return (entry.val.1, ← read entry.val.2)
    let required ← requiredNames (Entries.fieldOrNull schema "required")
    return .object notes properties required
  | some other =>
    if other.isPresent then .error .wrongShape
    else do
      let required ← requiredNames (Entries.fieldOrNull schema "required")
      return .object notes [] required
  | none => .ok (.freeObject notes)
termination_by 4 * (Value.map schema).size
decreasing_by
  have hmem : entry.val.2.size + 1 < (Value.map properties).size :=
    Value.size_lt_of_entry entry.2
  have hsize := Entries.size_lt_of_field hprops
  omega

/-- The schemas of a composition.  Nothing but schemas can be read from a list; any other sequence
has to be empty. -/
def readSequence (value : Value) : Except Failure (List Fragment) :=
  match value with
  | .list items => items.mapM read
  | other => if other.elements? = some [] then .ok [] else .error .wrongShape
termination_by 4 * value.size
decreasing_by
  have := Value.size_lt_of_mem ‹_ ∈ items›
  omega

def readComposition (notes : Annotations) (schema : Entries) (type : Option Value) :
    Except Failure Fragment :=
  match hone : Entries.field? schema "oneOf", hall : Entries.field? schema "allOf",
      hany : Entries.field? schema "anyOf", type with
  | some options, _, _, _ => do
    let discriminator ← readDiscriminator schema
    return .oneOf notes (← readSequence options) discriminator
  | none, some parts, _, _ => return .allOf notes (← readSequence parts)
  | none, none, some parts, _ => return .anyOf notes (← readSequence parts)
  | none, none, none, some type =>
    .ok (.primitive notes (.single type) (Entries.fieldOrNull schema "format"))
  | none, none, none, none => readObject notes schema
termination_by 4 * (Value.map schema).size + 1
decreasing_by
  · have := Entries.size_lt_of_field hone
    omega
  · have := Entries.size_lt_of_field hall
    omega
  · have := Entries.size_lt_of_field hany
    omega
  · omega

end

end Fragment
end SchemaViews
