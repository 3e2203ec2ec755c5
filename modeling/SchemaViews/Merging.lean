import SchemaViews.ValueEquality

/-!
# Merging values

The right value wins, with two exceptions: mappings are merged key by key, and lists are put one
behind the other.  A key keeps the place where it first came.
-/

namespace SchemaViews
namespace Value

mutual

/-- The value that `new` leaves where `old` was. -/
def merge (old : Value) : (new : Value) → Value
  | .map right =>
    match old with
    | .map left => .map (mergeEntries left right)
    | _ => .map right
  | .list right =>
    match old with
    | .list left => .list (left ++ right)
    | _ => .list right
  | .scalar s => .scalar s

def mergeEntries (left : Entries) : (right : List (Scalar × Value)) → Entries
  | [] => left
  | (key, v) :: rest => mergeEntries (ScalarMap.update left key v fun old => merge old v) rest

end

@[simp] theorem merge_scalar (old : Value) (s : Scalar) : merge old (.scalar s) = .scalar s := by
  cases old <;> rfl

@[simp] theorem mergeEntries_nil (left : Entries) : mergeEntries left [] = left := by
  rw [mergeEntries]

theorem mergeEntries_cons (left : Entries) (key : Scalar) (v : Value) (rest : Entries) :
    mergeEntries left ((key, v) :: rest) =
      mergeEntries (ScalarMap.update left key v fun old => merge old v) rest := by
  rw [mergeEntries]

theorem mergeEntries_append (left middle right : Entries) :
    mergeEntries left (middle ++ right) = mergeEntries (mergeEntries left middle) right := by
  induction middle generalizing left with
  | nil => simp
  | cons entry rest ih => rw [List.cons_append, mergeEntries_cons, mergeEntries_cons, ih]

end Value
end SchemaViews
