import SchemaViews.Failure

/-!
# Schema fragments

A fragment is a schema sorted by its kind.  The schemas inside it are fragments as well; references
are kept as they are and not followed.
-/

namespace SchemaViews

structure Annotations where
  nullable : Bool
  description : Value
  readOnly : Bool
  writeOnly : Bool
  raw : Entries

/-- How the alternatives of a union are told apart: by the value of a property, which the mapping
assigns to pointers or names of schemas. -/
structure Discriminator where
  property : Value
  mapping : OrderedMap Scalar Value

inductive Fragment
  | reference (notes : Annotations) (target : Reference)
  | primitive (notes : Annotations) (declared : DeclaredType) (format : Value)
  | choice (notes : Annotations) (values : List String) (format : Value)
  | object (notes : Annotations) (properties : List (Scalar × Fragment)) (required : List Scalar)
  | freeObject (notes : Annotations)
  | array (notes : Annotations) (items : Fragment)
  | freeArray (notes : Annotations)
  | oneOf (notes : Annotations) (options : List Fragment) (discriminator : Option Discriminator)
  | allOf (notes : Annotations) (parts : List Fragment)
  | anyOf (notes : Annotations) (parts : List Fragment)

namespace Annotations

def of (schema : Entries) : Annotations where
  nullable := schema.isTrue "nullable"
  description := schema.fieldOrNull "description"
  readOnly := schema.isTrue "readOnly"
  writeOnly := schema.isTrue "writeOnly"
  raw := schema

end Annotations

namespace Fragment

def notes : Fragment → Annotations
  | .reference notes _ | .primitive notes _ _ | .choice notes _ _ | .object notes _ _
  | .freeObject notes | .array notes _ | .freeArray notes | .oneOf notes _ _ | .allOf notes _
  | .anyOf notes _ => notes

def rawValue (f : Fragment) : Value :=
  .map f.notes.raw

end Fragment
end SchemaViews
