import SchemaViews.Value

/-!
# Equal values

Numbers are equal when they denote the same number, whatever their form; true counts as one and
false as zero.  Lists are equal part by part, and mappings when they have equal entries in any
order; inside them everything equals itself.  Equal scalars are one key of a mapping.
-/

namespace SchemaViews
namespace Scalar

/-- A number in the one form that it has in comparisons. -/
def normal : Scalar → Scalar
  | .bool b => .int (if b then 1 else 0)
  | .float x => match x.toInt? with
    | some i => .int i
    | none => .float x
  | s => s

def sameKey (a b : Scalar) : Bool :=
  a.normal = b.normal

def isNaN : Scalar → Bool
  | .float x => x.isNaN
  | _ => false

/-- A NaN is itself as a key, but equals nothing. -/
def same (a b : Scalar) : Bool :=
  !a.isNaN && a.sameKey b

def among (known : List Scalar) (key : Scalar) : Scalar :=
  (known.find? (·.sameKey key)).getD key

theorem sameKey_iff {a b : Scalar} : a.sameKey b ↔ a.normal = b.normal := by
  simp [sameKey]

@[simp] theorem sameKey_self (a : Scalar) : a.sameKey a := by
  simp [sameKey]

theorem sameKey_comm (a b : Scalar) : a.sameKey b = b.sameKey a := by
  simp [sameKey, eq_comm]

theorem normal_eq_str_iff {a : Scalar} {s : String} : a.normal = .str s ↔ a = .str s := by
  cases a with
  | float x => simp only [normal]; cases x.toInt? <;> simp
  | _ => simp [normal]

theorem sameKey_str {a : Scalar} {s : String} : a.sameKey (.str s) ↔ a = .str s := by
  rw [sameKey_iff, show (Scalar.str s).normal = .str s from rfl, normal_eq_str_iff]

@[simp] theorem among_str (known : List Scalar) (s : String) :
    among known (.str s) = .str s := by
  unfold among
  cases h : known.find? (·.sameKey (.str s)) with
  | none => rfl
  | some k =>
    have same := List.find?_some h
    exact sameKey_str.1 same

def distinct (scalars : List Scalar) : List Scalar :=
  scalars.foldl (fun kept s => if kept.any (sameKey · s) then kept else kept ++ [s]) []

end Scalar

namespace Value

mutual

def same : Value → Value → Bool
  | .scalar a, .scalar b => a.same b
  | .list xs, .list ys => sameItems xs ys
  | .map xs, .map ys => xs.length == ys.length && entriesWithin xs ys
  | _, _ => false

def sameItems : List Value → List Value → Bool
  | [], [] => true
  | x :: xs, y :: ys => (x = y || same x y) && sameItems xs ys
  | _, _ => false

def entriesWithin : List (Scalar × Value) → List (Scalar × Value) → Bool
  | [], _ => true
  | (k, x) :: xs, ys =>
    ys.any (fun entry => k.sameKey entry.1 && (x = entry.2 || same x entry.2))
      && entriesWithin xs ys

end

end Value

/-! ## Mappings whose keys are scalars -/

abbrev ScalarMap (α : Type) := OrderedMap Scalar α

namespace ScalarMap

variable {α : Type}

def find? (m : ScalarMap α) (key : Scalar) : Option α :=
  OrderedMap.find? m (key.among (OrderedMap.keys m))

def update (m : ScalarMap α) (key : Scalar) (value : α) (change : α → α) : ScalarMap α :=
  OrderedMap.update m (key.among (OrderedMap.keys m)) value change

def insert (m : ScalarMap α) (key : Scalar) (value : α) : ScalarMap α :=
  update m key value fun _ => value

def ofPairs (pairs : List (Scalar × α)) : ScalarMap α :=
  pairs.foldl (fun m pair => insert m pair.1 pair.2) []

@[simp] theorem find?_str (m : ScalarMap α) (s : String) :
    find? m (.str s) = OrderedMap.find? m (.str s) := by
  simp [find?]

@[simp] theorem update_str (m : ScalarMap α) (s : String) (value : α) (change : α → α) :
    update m (.str s) value change = OrderedMap.update m (.str s) value change := by
  simp [update]

end ScalarMap
end SchemaViews
