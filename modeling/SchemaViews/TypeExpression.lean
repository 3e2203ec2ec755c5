import SchemaViews.Value

/-!
# Type expressions

What a schema means in one view, free of any target language.  A `missing` expression stands where
none was given; no schema resolves to one.
-/

namespace SchemaViews

inductive PrimitiveKind
  | string
  | binary
  | boolean
  | float
  | integer
deriving DecidableEq, Repr

structure Field (τ : Type) where
  name : Scalar
  optional : Bool
  type : τ

inductive TypeExpr
  | missing
  | primitive (kind : PrimitiveKind)
  | nullable (inner : TypeExpr)
  | list (item : TypeExpr)
  | freeList
  | freeMap
  | struct (fields : List (Field TypeExpr))
  | union (alternatives : List TypeExpr)
  | literal (values : List String)
  /-- A generated type by its name, in the given module; null is the module at hand. -/
  | named (module : Value) (name : String)

namespace TypeExpr

instance : Inhabited TypeExpr := ⟨missing⟩

def unionOf : List TypeExpr → TypeExpr
  | [alternative] => alternative
  | alternatives => .union alternatives

/-! ## Decidable equality -/

mutual

def decEq : (a b : TypeExpr) → Decidable (a = b)
  | .missing, b => match b with
    | .missing => isTrue rfl
    | .primitive _ | .nullable _ | .list _ | .freeList | .freeMap | .struct _ | .union _
    | .literal _ | .named _ _ => isFalse nofun
  | .primitive j, b => match b with
    | .primitive k =>
      if h : j = k then isTrue (h ▸ rfl) else isFalse fun e => h (TypeExpr.primitive.inj e)
    | .missing | .nullable _ | .list _ | .freeList | .freeMap | .struct _ | .union _
    | .literal _ | .named _ _ => isFalse nofun
  | .nullable a, b => match b with
    | .nullable b => match decEq a b with
      | isTrue h => isTrue (h ▸ rfl)
      | isFalse h => isFalse fun e => h (TypeExpr.nullable.inj e)
    | .missing | .primitive _ | .list _ | .freeList | .freeMap | .struct _ | .union _
    | .literal _ | .named _ _ => isFalse nofun
  | .list a, b => match b with
    | .list b => match decEq a b with
      | isTrue h => isTrue (h ▸ rfl)
      | isFalse h => isFalse fun e => h (TypeExpr.list.inj e)
    | .missing | .primitive _ | .nullable _ | .freeList | .freeMap | .struct _ | .union _
    | .literal _ | .named _ _ => isFalse nofun
  | .freeList, b => match b with
    | .freeList => isTrue rfl
    | .missing | .primitive _ | .nullable _ | .list _ | .freeMap | .struct _ | .union _
    | .literal _ | .named _ _ => isFalse nofun
  | .freeMap, b => match b with
    | .freeMap => isTrue rfl
    | .missing | .primitive _ | .nullable _ | .list _ | .freeList | .struct _ | .union _
    | .literal _ | .named _ _ => isFalse nofun
  | .struct xs, b => match b with
    | .struct ys => match decEqFields xs ys with
      | isTrue h => isTrue (h ▸ rfl)
      | isFalse h => isFalse fun e => h (TypeExpr.struct.inj e)
    | .missing | .primitive _ | .nullable _ | .list _ | .freeList | .freeMap | .union _
    | .literal _ | .named _ _ => isFalse nofun
  | .union xs, b => match b with
    | .union ys => match decEqAll xs ys with
      | isTrue h => isTrue (h ▸ rfl)
      | isFalse h => isFalse fun e => h (TypeExpr.union.inj e)
    | .missing | .primitive _ | .nullable _ | .list _ | .freeList | .freeMap | .struct _
    | .literal _ | .named _ _ => isFalse nofun
  | .literal xs, b => match b with
    | .literal ys =>
      if h : xs = ys then isTrue (h ▸ rfl) else isFalse fun e => h (TypeExpr.literal.inj e)
    | .missing | .primitive _ | .nullable _ | .list _ | .freeList | .freeMap | .struct _
    | .union _ | .named _ _ => isFalse nofun
  | .named m a, b => match b with
    | .named n b =>
      if h : m = n ∧ a = b then isTrue (h.1 ▸ h.2 ▸ rfl)
      else isFalse fun e => h (TypeExpr.named.inj e)
    | .missing | .primitive _ | .nullable _ | .list _ | .freeList | .freeMap | .struct _
    | .union _ | .literal _ => isFalse nofun

def decEqAll : (xs ys : List TypeExpr) → Decidable (xs = ys)
  | [], [] => isTrue rfl
  | [], _ :: _ => isFalse nofun
  | _ :: _, [] => isFalse nofun
  | x :: xs, y :: ys =>
    match decEq x y, decEqAll xs ys with
    | isTrue h, isTrue t => isTrue (h ▸ t ▸ rfl)
    | isFalse h, _ => isFalse fun e => h (List.cons.inj e).1
    | _, isFalse t => isFalse fun e => t (List.cons.inj e).2

def decEqFields : (xs ys : List (Field TypeExpr)) → Decidable (xs = ys)
  | [], [] => isTrue rfl
  | [], _ :: _ => isFalse nofun
  | _ :: _, [] => isFalse nofun
  | ⟨j, o, x⟩ :: xs, ⟨k, p, y⟩ :: ys =>
    if hk : j = k ∧ o = p then
      match decEq x y, decEqFields xs ys with
      | isTrue h, isTrue t => isTrue (hk.1 ▸ hk.2 ▸ h ▸ t ▸ rfl)
      | isFalse h, _ => isFalse fun e => h (Field.mk.inj (List.cons.inj e).1).2.2
      | _, isFalse t => isFalse fun e => t (List.cons.inj e).2
    else isFalse fun e =>
      hk ⟨(Field.mk.inj (List.cons.inj e).1).1, (Field.mk.inj (List.cons.inj e).1).2.1⟩

end

instance : DecidableEq TypeExpr := decEq

end TypeExpr
end SchemaViews
