import SchemaViews.Binary64
import SchemaViews.Moment
import SchemaViews.OrderedMap

/-!
# Document values

A document is a tree of scalars, lists and mappings.  Scalars are the values that can be keys; a
reference to a named component is one of them.  Mappings keep the order of their entries.
-/

namespace SchemaViews

structure Reference where
  kind : String := "components.schemas"
  name : String := ""
deriving DecidableEq, Repr

inductive Scalar
  | null
  | bool (b : Bool)
  | int (i : Int)
  | float (x : Binary64)
  | str (s : String)
  | moment (m : Moment)
  | ref (target : Reference)
deriving DecidableEq, Repr

def Scalar.text? : Scalar → Option String
  | .str s => some s
  | _ => none

def Scalar.present? : Scalar → Option Scalar
  | .null => none
  | s => some s

inductive Value
  | scalar (s : Scalar)
  | list (items : List Value)
  | map (entries : List (Scalar × Value))

abbrev Entries := OrderedMap Scalar Value

namespace Value

@[match_pattern] abbrev null : Value := .scalar .null
@[match_pattern] abbrev bool (b : Bool) : Value := .scalar (.bool b)
@[match_pattern] abbrev int (i : Int) : Value := .scalar (.int i)
@[match_pattern] abbrev float (x : Binary64) : Value := .scalar (.float x)
@[match_pattern] abbrev str (s : String) : Value := .scalar (.str s)
@[match_pattern] abbrev moment (m : Moment) : Value := .scalar (.moment m)
@[match_pattern] abbrev ref (target : Reference) : Value := .scalar (.ref target)

instance : Inhabited Value := ⟨null⟩

/-! ## Decidable equality -/

mutual

def decEq : (a b : Value) → Decidable (a = b)
  | .scalar s, .scalar t =>
    if h : s = t then isTrue (h ▸ rfl) else isFalse fun e => h (Value.scalar.inj e)
  | .list xs, .list ys =>
    match decEqItems xs ys with
    | isTrue h => isTrue (h ▸ rfl)
    | isFalse h => isFalse fun e => h (Value.list.inj e)
  | .map xs, .map ys =>
    match decEqEntries xs ys with
    | isTrue h => isTrue (h ▸ rfl)
    | isFalse h => isFalse fun e => h (Value.map.inj e)
  | .scalar _, .list _ => isFalse nofun
  | .scalar _, .map _ => isFalse nofun
  | .list _, .scalar _ => isFalse nofun
  | .list _, .map _ => isFalse nofun
  | .map _, .scalar _ => isFalse nofun
  | .map _, .list _ => isFalse nofun

def decEqItems : (xs ys : List Value) → Decidable (xs = ys)
  | [], [] => isTrue rfl
  | [], _ :: _ => isFalse nofun
  | _ :: _, [] => isFalse nofun
  | x :: xs, y :: ys =>
    match decEq x y, decEqItems xs ys with
    | isTrue h, isTrue t => isTrue (h ▸ t ▸ rfl)
    | isFalse h, _ => isFalse fun e => h (List.cons.inj e).1
    | _, isFalse t => isFalse fun e => t (List.cons.inj e).2

def decEqEntries : (xs ys : List (Scalar × Value)) → Decidable (xs = ys)
  | [], [] => isTrue rfl
  | [], _ :: _ => isFalse nofun
  | _ :: _, [] => isFalse nofun
  | (j, x) :: xs, (k, y) :: ys =>
    if hk : j = k then
      match decEq x y, decEqEntries xs ys with
      | isTrue h, isTrue t => isTrue (hk ▸ h ▸ t ▸ rfl)
      | isFalse h, _ => isFalse fun e => h (Prod.mk.inj (List.cons.inj e).1).2
      | _, isFalse t => isFalse fun e => t (List.cons.inj e).2
    else isFalse fun e => hk (Prod.mk.inj (List.cons.inj e).1).1

end

instance : DecidableEq Value := decEq

/-! ## Size -/

mutual

def size : Value → Nat
  | .scalar _ => 1
  | .list items => itemsSize items + 1
  | .map entries => entriesSize entries + 1

def itemsSize : List Value → Nat
  | [] => 0
  | v :: rest => v.size + itemsSize rest + 1

def entriesSize : List (Scalar × Value) → Nat
  | [] => 0
  | (_, v) :: rest => v.size + entriesSize rest + 1

end

theorem size_lt_of_mem {items : List Value} {v : Value} (h : v ∈ items) :
    v.size + 1 < (Value.list items).size := by
  induction items with
  | nil => simp at h
  | cons w rest ih =>
    rcases List.mem_cons.1 h with rfl | h
    · simp only [size, itemsSize]
      omega
    · have := ih h
      simp only [size, itemsSize] at *
      omega

theorem size_lt_of_entry {entries : Entries} {key : Scalar} {v : Value}
    (h : (key, v) ∈ entries) : v.size + 1 < (Value.map entries).size := by
  induction entries with
  | nil => simp at h
  | cons entry rest ih =>
    obtain ⟨k, w⟩ := entry
    rcases List.mem_cons.1 h with h | h
    · cases h
      simp only [size, entriesSize]
      omega
    · have := ih h
      simp only [size, entriesSize] at *
      omega

/-! ## Reading a value -/

def entries? : Value → Option Entries
  | .map entries => some entries
  | _ => none

/-- What a value yields when it is gone through: the items of a list, the characters of a text,
the keys of a mapping. -/
def elements? : Value → Option (List Value)
  | .list items => some items
  | .map entries => some (entries.map fun entry => .scalar entry.1)
  | .str s => some (s.toList.map fun c => .str (String.ofList [c]))
  | _ => none

/-- Null, false, zeros and everything empty count as absent. -/
def isPresent : Value → Bool
  | .null => false
  | .bool b => b
  | .int i => i ≠ 0
  | .float x => x.magnitude ≠ 0
  | .str s => !s.isEmpty
  | .moment _ => true
  | .ref _ => true
  | .list items => !items.isEmpty
  | .map entries => !entries.isEmpty

end Value

namespace Entries

def field? (entries : Entries) (name : String) : Option Value :=
  OrderedMap.find? entries (.str name)

def fieldOrNull (entries : Entries) (name : String) : Value :=
  (field? entries name).getD .null

def setField (entries : Entries) (name : String) (value : Value) : Entries :=
  OrderedMap.insert entries (.str name) value

def dropField (entries : Entries) (name : String) : Entries :=
  OrderedMap.erase entries (.str name)

def isTrue (entries : Entries) (name : String) : Bool :=
  field? entries name = some (.bool true)

theorem size_lt_of_field {entries : Entries} {name : String} {v : Value}
    (h : entries.field? name = some v) : v.size + 1 < (Value.map entries).size :=
  Value.size_lt_of_entry (OrderedMap.mem_of_find? h)

end Entries
end SchemaViews
