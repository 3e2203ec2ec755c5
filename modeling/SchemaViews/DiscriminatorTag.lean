import SchemaViews.Flattening
import SchemaViews.Fragment

/-!
# Tags of alternatives

A discriminated union tells its alternatives apart by the value of one property.  A referenced
alternative has the key of the first mapping entry that denotes it for its tag, or else its name.
Any other alternative has the value that it declares for the property itself: a constant, or the
only value of an enumeration.
-/

namespace SchemaViews
namespace Discriminator

/-- The key of the first entry whose target denotes the path.  Targets up to that entry have to be
texts. -/
def keyFor? (path : List String) : OrderedMap Scalar Value → Except Failure (Option Scalar)
  | [] => .ok none
  | (key, target) :: rest =>
    match target with
    | .str target =>
      if ComponentPointer.targetPath? target = some path then .ok (some key) else keyFor? path rest
    | _ => .error .wrongShape

def declaredValue? (schema : Entries) : Except Failure (Option String) :=
  match schema.field? "const" with
  | some constant => some <$> constant.written
  | none =>
    match schema.field? "enum" with
    | some (.list [value]) => some <$> value.written
    | _ => .ok none

def declaredTag (property : Value) (flat : Entries) : Except Failure (Option String) :=
  let properties := flat.fieldOrNull "properties"
  match property with
  | .scalar name =>
    match properties with
    | .map properties =>
      match ScalarMap.find? properties name with
      | some (.map schema) => declaredValue? schema
      | _ => .ok none
    | _ => if properties.isPresent then .error .wrongShape else .ok none
  | _ => .error .wrongShape

def tag (d : Discriminator) (arena : Arena) (option : Fragment) : Outcome (Option Scalar) :=
  match option with
  | .reference _ target => do
    let key ← keyFor? target.path d.mapping
    return (key.getD (.str target.name)).present?
  | option => do
    let flat ← arena.merge [option.rawValue]
    let declared ← declaredTag d.property flat
    return declared.map .str

/-! ## Tagged alternatives -/

def tagSchema (tag : Scalar) : Value :=
  .map [(.str "type", .str "string"), (.str "enum", .list [.scalar tag])]

def tagObject (property tag : Scalar) : Value :=
  .map
    [(.str "type", .str "object"),
      (.str "properties", .map [(property, tagSchema tag)]),
      (.str "required", .list [.scalar property])]

/-- The alternative merged with the tag object.  Whatever it declares for the property, the tag
alone remains. -/
def taggedOption (arena : Arena) (option property : Value) (tag : Scalar) : Outcome Entries :=
  match property with
  | .scalar name => do
    let merged ← arena.merge [option, tagObject name tag]
    let properties := ((merged.fieldOrNull "properties").entries?).getD []
    return merged.setField "properties" (.map (ScalarMap.insert properties name (tagSchema tag)))
  | _ => Outcome.fail .wrongShape

end Discriminator
end SchemaViews
