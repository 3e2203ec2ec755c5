import SchemaViews.Lines
import SchemaViews.ValueEquality
import SchemaViews.YamlNode
import SchemaViews.YamlScalarValue

/-!
# Reading YAML text

A text denotes the value of its node.  Keys are scalars, and equal keys are one: a later value
counts, at the place of the first.  Of several faults in values the one nearest to the root is
reported, and of equally deep ones the first.  Anchors, tags and directives are not read.
-/

namespace SchemaViews
namespace YamlText

structure Fault where
  depth : Nat
  failure : Failure

abbrev Meaning (α : Type) := Except Fault α

def malformed {α : Type} : Meaning α :=
  .error ⟨0, .malformedYaml⟩

def collect {α : Type} : List (Meaning α) → Meaning (List α)
  | [] => .ok []
  | part :: rest =>
    match part, collect rest with
    | .ok a, .ok as => .ok (a :: as)
    | .ok _, .error fault => .error fault
    | .error fault, .ok _ => .error fault
    | .error fault, .error later => .error (if later.depth < fault.depth then later else fault)

def inside {α : Type} (m : Meaning α) : Meaning α :=
  m.mapError fun fault => { fault with depth := fault.depth + 1 }

def scalarMeaning (text : String) (plain : Bool) : Meaning Scalar :=
  if plain then (plainValue text).mapError (⟨0, ·⟩) else .ok (.str text)

def keyMeaning : Node → Meaning Scalar
  | .scalar text plain =>
    if plain && text = valueWord then .ok (.str text) else scalarMeaning text plain
  | _ => malformed

structure Members where
  merged : List (Meaning (Scalar × Value))
  own : List (Meaning (Scalar × Value))

def Members.all (m : Members) : List (Meaning (Scalar × Value)) :=
  m.merged ++ m.own

def pairMeaning (key : Node) (value : Meaning Value) : Meaning (Scalar × Value) :=
  match keyMeaning key with
  | .ok k => value.map (k, ·)
  | .error fault => .error fault

mutual

def meaning : Node → Meaning Value
  | .scalar text plain => (scalarMeaning text plain).map .scalar
  | .items nodes => inside ((collect (itemMeanings nodes)).map .list)
  | .members pairs =>
    inside (do
      let members ← memberMeanings pairs
      let entries ← collect members.all
      return .map (ScalarMap.ofPairs entries))

def itemMeanings : List Node → List (Meaning Value)
  | [] => []
  | node :: rest => meaning node :: itemMeanings rest

/-- The members of a mapping.  Under the merge key stands a mapping or a list of mappings, of which
an earlier one has precedence. -/
def memberMeanings : List (Node × Node) → Meaning Members
  | [] => .ok ⟨[], []⟩
  | (key, value) :: rest => do
    match key with
    | .scalar text true =>
      if text = mergeWord then
        let taken ← takenOver value
        let members ← memberMeanings rest
        return { members with merged := taken ++ members.merged }
      else
        let members ← memberMeanings rest
        return { members with own := pairMeaning key (meaning value) :: members.own }
    | _ =>
      let members ← memberMeanings rest
      return { members with own := pairMeaning key (meaning value) :: members.own }

def takenOver : Node → Meaning (List (Meaning (Scalar × Value)))
  | .members pairs => (memberMeanings pairs).map Members.all
  | .items nodes => takenOverAll nodes
  | .scalar .. => malformed

def takenOverAll : List Node → Meaning (List (Meaning (Scalar × Value)))
  | [] => .ok []
  | node :: rest =>
    match node with
    | .members pairs => do
      let members ← memberMeanings pairs
      let later ← takenOverAll rest
      return later ++ members.all
    | _ => malformed

end

def dropMark : List Char → List Char
  | '\ufeff' :: rest => rest
  | text => text

def node? (text : String) : Option Node := do
  let characters := (Lines.unifyEnds text).toList
  if characters.all isAllowed then Node.ofTokens? (← tokens? (dropMark characters)) else none

def read (text : String) : Except Failure Value :=
  match node? text with
  | some node => (meaning node).mapError Fault.failure
  | none => .error .malformedYaml

example : (read "a: [x, \"y\"]\nb:\n- 1:30\n").toOption =
    some (.map [(.str "a", .list [.str "x", .str "y"]), (.str "b", .list [.int 90])]) := by
  decide +kernel

example : (read "a: 1\n true: 2\n").toOption = none := by decide +kernel

end YamlText
end SchemaViews
